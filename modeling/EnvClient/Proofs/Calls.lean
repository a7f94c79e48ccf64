import EnvClient.Proofs.Checking
import EnvClient.Proofs.Sending
import EnvClient.Proofs.Url.Origin

/-! Operations of the client. Each is one request, which takes the next reply if the service can
be reached, and what it gives depends on that reply alone. -/
namespace EnvClient

open Http (Answer Exchange Method Network Reply Request)

namespace Http.Reply

def success? : Reply → Option Answer
  | .whole status body =>
    if isSuccess status then
      some ⟨status, Text.Utf8.lossy (if isBodiless status then [] else body)⟩
    else none
  | .cut _ => none

def payload? {α : Type} [Payload α] (r : Reply) : Option α :=
  r.success?.bind fun answer => (Json.decode Payload.read answer.text).toOption

/-- The report of a success; a blank one has no complaint. -/
def report? (r : Reply) : Option Report :=
  r.success?.bind fun answer =>
    if Text.isBlank answer.text then some .empty
    else (Json.decode Report.read answer.text).toOption

def definition? (r : Reply) : Option String :=
  (r.success?.filter fun answer => (Definition.ofYaml? answer.text).isSome).map (·.text)

def session? (r : Reply) : Option String :=
  ((r.payload? (α := Session)).filter fun session => (session.diagnostics.getD []).isEmpty).map
    (·.id)

def page (r : Reply) : Except ClientError Page := (r.read (Answer.json (α := Page))).map (·.data)

variable {α : Type}

theorem toOption_read (read : Answer → Except ClientError (Response α)) (r : Reply) :
    (r.read read).toOption = r.success?.bind fun answer => (read answer).toOption := by
  cases r with
  | cut status => rfl
  | whole status body =>
    cases hsuccess : isSuccess status with
    | true => simp [Reply.read, answer, success?, Answer.success, hsuccess, Except.bind]
    | false =>
      simp [Reply.read, answer, success?, Answer.success, hsuccess, Except.bind, Except.toOption]

theorem toOption_map_read {β : Type} (read : Answer → Except ClientError (Response α))
    (f : Response α → β) (r : Reply) : ((r.read read).map f).toOption =
      r.success?.bind fun answer => (read answer).toOption.map f := by
  have hmap : ∀ x : Except ClientError (Response α), (x.map f).toOption = x.toOption.map f := by
    intro x
    cases x <;> rfl
  rw [hmap, toOption_read, Option.map_bind]
  rfl

theorem toOption_read_json [Payload α] (r : Reply) :
    ((r.read (Answer.json (α := α))).map (·.data)).toOption = r.payload? (α := α) := by
  rw [toOption_map_read]
  unfold payload?
  congr 1
  funext answer
  unfold Answer.json
  cases Json.decode (Payload.read (α := α)) answer.text <;> rfl

theorem map_const_read_json [Payload α] {β γ : Type} (f : Response α → β) (c : γ) (r : Reply) :
    (((r.read (Answer.json (α := α))).map f).toOption.map fun _ => c) =
      (r.payload? (α := α)).map fun _ => c := by
  rw [← toOption_read_json]
  cases r.read (Answer.json (α := α)) <;> rfl

theorem toOption_read_report (r : Reply) :
    ((r.read (Answer.jsonOr Report.empty)).map (·.data)).toOption = r.report? := by
  rw [toOption_map_read]
  unfold report?
  congr 1
  funext answer
  have hpayload : Json.decode (Payload.read (α := Report)) answer.text =
      Json.decode Report.read answer.text := rfl
  unfold Answer.jsonOr Answer.json
  split
  · rfl
  · rw [hpayload]
    cases Json.decode Report.read answer.text <;> rfl

theorem toOption_read_definition (r : Reply) :
    ((r.read Answer.definition).map (·.raw)).toOption = r.definition? := by
  rw [toOption_map_read, definition?]
  cases r.success? with
  | none => rfl
  | some answer =>
    rw [Option.bind_some, Answer.definition, Option.filter_some]
    cases Definition.ofYaml? answer.text <;> rfl

end Http.Reply

namespace Operation

end Operation

namespace Api

def reached (api : Api) (n : Network) : Bool :=
  match Url.ofText? (api.url []) with
  | some url => n.reaches url.origin
  | none => false

def heard (api : Api) (n : Network) : List Reply := if api.reached n then n.replies else []

def asked (api : Api) (n : Network) (op : Operation) : Network :=
  if api.reached n then n.after (api.requests op n) n.replies.tail else n

def fault (api : Api) (n : Network) : TransportFault :=
  match (Url.ofText? (api.url [])).map Url.origin with
  | some origin => if n.reaches origin then .closed else .unreachable
  | none => .url

/-- The exchange is one request, and its result what the reply to it is read as. -/
structure Asks {α : Type} (api : Api) (op : Operation) (x : Exchange α)
    (read : Reply → Except ClientError α) : Prop where
  heard : ∀ {n : Network} {r : Reply} {replies : List Reply}, api.heard n = r :: replies →
    x.run n = (read r, api.asked n op)
  unheard : ∀ {n : Network}, api.heard n = [] →
    x.run n = (.error (.transport (api.fault n)), api.asked n op)

variable {api : Api} {op : Operation} {n : Network} {α β : Type}

theorem reached_eq (api : Api) (op : Operation) (n : Network) :
    api.reached n = match api.address? op with
      | some url => n.reaches url.origin
      | none => false := by
  have horigin := origin_address? api op
  unfold reached
  cases haddress : api.address? op with
  | none =>
    rw [haddress, Option.map_none] at horigin
    rw [Option.map_eq_none_iff.mp horigin.symm]
  | some url =>
    rw [haddress, Option.map_some] at horigin
    obtain ⟨place, hplace, heq⟩ := Option.map_eq_some_iff.mp horigin.symm
    rw [hplace]
    exact congrArg n.reaches heq

theorem requests_of_reached (h : api.reached n = true) (op : Operation) :
    ∃ url, api.address? op = some url ∧ n.reaches url.origin = true ∧
      api.requests op n = [api.request op url] := by
  rw [reached_eq api op] at h
  rw [requests]
  cases haddress : api.address? op with
  | none => simp [haddress] at h
  | some url =>
    rw [haddress] at h
    exact ⟨url, rfl, h, if_pos h⟩

theorem heard_eq_cons {r : Reply} {replies : List Reply} :
    api.heard n = r :: replies ↔ api.reached n = true ∧ n.replies = r :: replies := by
  rw [heard]
  cases api.reached n <;> simp

theorem heard_eq_nil : api.heard n = [] ↔ api.reached n = false ∨ n.replies = [] := by
  rw [heard]
  cases api.reached n <;> simp

@[simp] theorem reached_asked (op : Operation) : api.reached (api.asked n op) = api.reached n := by
  unfold asked
  split
  · rfl
  · rfl

@[simp] theorem requests_asked (op op' : Operation) :
    api.requests op' (api.asked n op) = api.requests op' n := by
  unfold asked
  split
  · rfl
  · rfl

@[simp] theorem fault_asked (op : Operation) : api.fault (api.asked n op) = api.fault n := by
  unfold asked
  split
  · rfl
  · rfl

theorem heard_asked (api : Api) (n : Network) (op : Operation) :
    api.heard (api.asked n op) = (api.heard n).tail := by
  rw [heard, heard, reached_asked, asked]
  cases api.reached n <;> rfl

theorem foldl_asked (h : api.reached n = true) (ops : List Operation) :
    ops.foldl api.asked n = n.after (ops.flatMap (api.requests · n)) (n.replies.drop ops.length) := by
  induction ops generalizing n with
  | nil => simp [Network.after]
  | cons op rest ih =>
    rw [List.foldl_cons, ih ((reached_asked op).trans h)]
    simp only [requests_asked]
    rw [asked, if_pos h, Network.after_after, Network.replies_after, List.drop_tail,
      List.length_cons, List.flatMap_cons]

theorem run_exchange_nil (op : Operation) (h : api.heard n = []) :
    (api.exchange op).run n = (.error (.transport (api.fault n)), api.asked n op) := by
  have hreached := reached_eq api op n
  rw [fault, ← origin_address? api op, asked, requests, exchange]
  cases haddress : api.address? op with
  | none =>
    rw [haddress] at hreached
    rw [hreached]
    rfl
  | some url =>
    rw [haddress] at hreached
    rw [hreached, Option.map_some]
    change Http.send url (api.request op url) n = _
    rw [Http.send, Network.send]
    rcases Bool.eq_false_or_eq_true (n.reaches url.origin) with hreach | hreach
    · have hreplies : n.replies = [] := by simpa [hreached, hreach] using heard_eq_nil.mp h
      simp only [hreach, hreplies]
      rfl
    · simp only [hreach]
      rfl

theorem asks_call (op : Operation) (read : Answer → Except ClientError (Response α)) :
    api.Asks op (api.call op read) (·.read read) := by
  constructor
  · intro n r replies hheard
    obtain ⟨hreached, hreplies⟩ := heard_eq_cons.mp hheard
    obtain ⟨url, haddress, hreach, hrequests⟩ := requests_of_reached hreached op
    rw [run_call_cons read haddress hreach hreplies, asked, hreached, hrequests, hreplies]
    rfl
  · intro n hheard
    exact run_bind_error (run_exchange_nil op hheard) _

theorem Asks.map {x : Exchange α} {read : Reply → Except ClientError α} (h : api.Asks op x read)
    (f : α → β) : api.Asks op (f <$> x) fun r => (read r).map f := by
  rw [map_eq_pure_bind]
  constructor
  · intro n r replies hheard
    have hrun := h.heard hheard
    cases hread : read r with
    | error e => exact run_bind_error (hread ▸ hrun) _
    | ok a => exact run_bind_ok (hread ▸ hrun) _
  · intro n hheard
    exact run_bind_error (h.unheard hheard) _

end Api

namespace Client

variable (client : Client) (organization environment : String)

theorem asks_list (token : Option String) :
    client.api.Asks (.list organization token) (client.list organization token) Reply.page :=
  (Api.asks_call _ _).map _

theorem asks_definition : client.api.Asks (.definition organization environment)
    (client.definition organization environment) fun r => (r.read Answer.definition).map stored :=
  (Api.asks_call _ _).map _

theorem asks_decrypted : client.api.Asks (.decrypted organization environment)
    (client.decrypted organization environment) fun r => (r.read Answer.definition).map stored :=
  (Api.asks_call _ _).map _

theorem asks_create : client.api.Asks (.create organization environment)
    (client.create organization environment) fun r => (r.read Answer.unit).map (·.data) :=
  (Api.asks_call _ _).map _

theorem asks_delete : client.api.Asks (.delete organization environment)
    (client.delete organization environment) fun r => (r.read Answer.unit).map (·.data) :=
  (Api.asks_call _ _).map _

theorem asks_updateYaml (yaml : String) : client.api.Asks (.update organization environment yaml)
    (client.updateYaml organization environment yaml)
    fun r => (r.read (Answer.jsonOr Report.empty)).map (·.data) :=
  (Api.asks_call _ _).map _

theorem asks_openSession : client.api.Asks (.openSession organization environment)
    (client.openSession organization environment)
    fun r => (r.read (Answer.json (α := Session))).map (·.data) :=
  (Api.asks_call _ _).map _

theorem asks_read (session : String) : client.api.Asks (.read organization environment session)
    (client.read organization environment session)
    fun r => (r.read (Answer.json (α := Environment))).map opened :=
  (Api.asks_call _ _).map _

theorem asks_property (session path : String) :
    client.api.Asks (.property organization environment session path)
      (client.property organization environment session path)
      fun r => (r.read (Answer.json (α := Record))).map fun response =>
        ⟨response.data, response.data.value.resolve⟩ :=
  (Api.asks_call _ _).map _

theorem asks_checkYaml (yaml : String) : client.api.Asks (.check organization yaml)
    (client.checkYaml organization yaml) fun r => r.answer.bind Answer.verdict := by
  have hcheck : client.api.Asks (.check organization yaml)
      (do return (← client.api.check organization yaml).data)
      fun r => (r.read (Answer.jsonOr Check.empty)).map (·.data) := (Api.asks_call _ _).map _
  constructor
  · intro n r replies hheard
    cases hanswer : r.answer with
    | ok answer =>
      obtain ⟨hreached, hreplies⟩ := Api.heard_eq_cons.mp hheard
      obtain ⟨url, haddress, hreach, hrequests⟩ := Api.requests_of_reached hreached
        (.check organization yaml)
      rw [run_checkYaml haddress hreach hreplies hanswer, Api.asked, hreached, hrequests, hreplies]
      rfl
    | error e =>
      have hcut : e = .transport .bodyCut := by
        cases r with
        | whole status body => cases hanswer
        | cut status => exact (Except.error.inj hanswer).symm
      have hrun := hcheck.heard hheard
      rw [Reply.read, hanswer] at hrun
      rw [hcut] at hrun ⊢
      exact Http.Exchange.run_tryCatch_error hrun _
  · intro n hheard
    exact Http.Exchange.run_tryCatch_error (hcheck.unheard hheard) _

end Client
end EnvClient
