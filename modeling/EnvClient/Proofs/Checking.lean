import EnvClient.Proofs.Fields
import EnvClient.Proofs.Requests
import EnvClient.Client

/-! What the answer to a check amounts to, by its code and its body. -/
namespace EnvClient

open Http (Answer Network Reply)

namespace Json

theorem Reader.eq_array_of_list {α : Type} {read : Reader α} {depth : Nat} {doc : Doc}
    {items : List α} (h : Reader.list read depth doc = .ok items) :
    ∃ values, doc = .array values := by
  unfold Reader.list at h
  split at h
  · exact ⟨_, rfl⟩
  · exact absurd h Doc.unexpected_ne_ok

theorem Reader.eq_object_of_map {α : Type} {read : Reader α} {depth : Nat} {doc : Doc}
    {members : Members α} (h : Reader.map read depth doc = .ok members) :
    ∃ values, doc = .object values := by
  unfold Reader.map at h
  split at h
  · exact ⟨_, rfl⟩
  · exact absurd h Doc.unexpected_ne_ok

theorem Reader.eq_null_or_of_option {α : Type} {read : Reader α} {depth : Nat} {doc : Doc}
    {found : Option α} (h : Reader.option read depth doc = .ok found) :
    doc = .null ∨ ∃ value, read depth doc = .ok value := by
  unfold Reader.option at h
  split at h
  · exact .inl rfl
  · obtain ⟨value, hread, _⟩ := Result.map_eq_ok.mp h
    exact .inr ⟨value, hread⟩

theorem Reader.eq_null_of_list_of_map {α β : Type} {item : Reader α} {member : Reader β}
    {depth depth' : Nat} {doc : Doc} {items : Option (List α)} {members : Option (Members β)}
    (hlist : Reader.option (Reader.list item) depth doc = .ok items)
    (hmap : Reader.option (Reader.map member) depth' doc = .ok members) : doc = .null := by
  rcases eq_null_or_of_option hlist with hnull | ⟨_, hread⟩
  · exact hnull
  rcases eq_null_or_of_option hmap with hnull | ⟨_, hread'⟩
  · exact hnull
  obtain ⟨values, rfl⟩ := eq_array_of_list hread
  obtain ⟨_, hobject⟩ := eq_object_of_map hread'
  cases hobject

end Json

namespace Check

open Json (Items Result)

/-- As an array a body is both only if it says nothing: its second item would have to be the
diagnostics of the one and the properties of the other. -/
theorem diagnostics_eq_of_items {depth : Nat} {items : Items} {message : Option String}
    {exprs : Option (Members Json)} {properties : Option NamedProperties} {schema : Option Json}
    {diagnostics diagnostics' : Option (List Diagnostic)}
    (hfailure : Failure.fields.readItems "ErrorResponse" Failure.fields.length depth 0 items =
      .ok (message, diagnostics, ()))
    (hcheck : Check.fields.readItems "CheckEnvironment" Check.fields.length depth 0 items =
      .ok (exprs, properties, schema, diagnostics', ())) : diagnostics = diagnostics' := by
  cases items with
  | broken fault => cases hfailure
  | done =>
    cases hfailure
    cases hcheck
    rfl
  | item first items =>
    obtain ⟨_, _, hfailure⟩ := Result.bind_eq_ok.mp hfailure
    obtain ⟨_, hfailure, heq⟩ := Result.bind_eq_ok.mp hfailure
    cases heq
    obtain ⟨_, _, hcheck⟩ := Result.bind_eq_ok.mp hcheck
    obtain ⟨_, hcheck, heq⟩ := Result.bind_eq_ok.mp hcheck
    cases heq
    cases items with
    | broken fault => cases hfailure
    | done =>
      cases hfailure
      cases hcheck
      rfl
    | item second items =>
      obtain ⟨_, hlist, hfailure⟩ := Result.bind_eq_ok.mp hfailure
      obtain ⟨_, hend, heq⟩ := Result.bind_eq_ok.mp hfailure
      cases heq
      obtain ⟨_, hmap, hcheck⟩ := Result.bind_eq_ok.mp hcheck
      obtain ⟨_, hcheck, heq⟩ := Result.bind_eq_ok.mp hcheck
      cases heq
      cases Json.Reader.eq_null_of_list_of_map hlist hmap
      cases hlist
      cases items with
      | done =>
        cases hcheck
        rfl
      | _ => cases hend

variable {depth : Nat} {doc : Json.Doc} {failure : Failure} {check : Check}

theorem diagnostics_eq (hfailure : Failure.read depth doc = .ok failure)
    (hcheck : Check.read depth doc = .ok check) : failure.diagnostics = check.diagnostics := by
  have hnames : Failure.fields.names.Nodup := by decide
  have hnames' : Check.fields.names.Nodup := by decide
  obtain ⟨⟨message, diagnostics, _⟩, hrow, h⟩ := Result.bind_eq_ok.mp hfailure
  cases h
  obtain ⟨⟨exprs, properties, schema, diagnostics', _⟩, hrow', h⟩ := Result.bind_eq_ok.mp hcheck
  cases h
  unfold Json.Fields.read at hrow hrow'
  cases doc with
  | object members =>
    cases depth with
    | zero => cases hrow
    | succ depth =>
      have hfields := Json.Fields.reads_readMembers hnames hrow
      have hfields' := Json.Fields.reads_readMembers hnames' hrow'
      exact Json.Field.eq_of_reads hfields.2.1 hfields'.2.2.2.1
  | array items =>
    cases depth with
    | zero => cases hrow
    | succ depth => exact diagnostics_eq_of_items hrow hrow'
  | _ => exact absurd hrow Json.Doc.unexpected_ne_ok

theorem diagnostics_eq_of_decode {text : String}
    (hfailure : Json.decode Failure.read text = .ok failure)
    (hcheck : Json.decode Check.read text = .ok check) :
    failure.diagnostics = check.diagnostics :=
  diagnostics_eq (Json.read_of_decode hfailure) (Json.read_of_decode hcheck)

end Check

namespace Http.Answer

def verdict (a : Answer) : Except ClientError Check :=
  match a.success.bind (jsonOr Check.empty) with
  | .ok response => .ok response.data
  | .error e => match Client.invalid? e with
    | some check => .ok check
    | none => .error e

variable {a : Answer} {check : Check}

theorem verdict_of_blank (hsuccess : Http.isSuccess a.status = true)
    (hblank : Text.isBlank a.text = true) : a.verdict = .ok Check.empty := by
  have hread : a.success.bind (jsonOr Check.empty) = .ok ⟨a.status, Check.empty, a.text⟩ := by
    rw [success, if_pos hsuccess, Except.bind, jsonOr, if_pos hblank]
  rw [verdict, hread]

theorem verdict_of_success (hsuccess : Http.isSuccess a.status = true)
    (hblank : Text.isBlank a.text = false) :
    a.verdict = match Json.decode Check.read a.text with
      | .ok check => .ok check
      | .error e => .error (.decode e) := by
  have hread : a.success.bind (jsonOr Check.empty) = json a := by
    rw [success, if_pos hsuccess, Except.bind, jsonOr, hblank, if_neg Bool.false_ne_true]
  have hpayload : Json.decode (Payload.read (α := Check)) a.text = Json.decode Check.read a.text :=
    rfl
  rw [verdict, hread, json, hpayload]
  cases Json.decode Check.read a.text <;> rfl

theorem verdict_of_failure (hsuccess : Http.isSuccess a.status = false) :
    a.verdict = match Client.invalid? a.failure with
      | some check => .ok check
      | none => .error a.failure := by
  have hread : a.success.bind (jsonOr Check.empty) = .error a.failure := by
    rw [success, hsuccess, if_neg Bool.false_ne_true, Except.bind]
  rw [verdict, hread]

theorem invalid?_failure :
    Client.invalid? a.failure = some check ↔
      a.status = 400 ∧ Json.decode Check.read a.text = .ok check ∧ check.list ≠ [] := by
  rw [failure]
  by_cases hstatus : a.status = 400
  · rw [hstatus, Client.invalid?, Option.filter_eq_some_iff]
    cases Json.decode Check.read a.text <;> simp [Except.toOption, Check.isValid]
  · have hnone : ∀ message diagnostics,
        Client.invalid? (.service a.status message diagnostics a.text) = none := by
      intro message diagnostics
      unfold Client.invalid?
      split
      · rename_i heq
        injection heq with hcode
        exact absurd hcode hstatus
      · rfl
    simp [hnone, hstatus]

/-- A success that is not blank and no check is an error of decoding, a failure that is no check
with diagnostics is an error of the service, and anything else is a check. -/
theorem verdict_cases (a : Answer) :
    (Http.isSuccess a.status = true ∧ Text.isBlank a.text = true ∧ a.verdict = .ok Check.empty) ∨
    (Http.isSuccess a.status = true ∧ Text.isBlank a.text = false ∧
      a.verdict = match Json.decode Check.read a.text with
        | .ok check => .ok check
        | .error e => .error (.decode e)) ∨
    (a.status = 400 ∧ ∃ check, Json.decode Check.read a.text = .ok check ∧ check.list ≠ [] ∧
      a.verdict = .ok check) ∨
    (Http.isSuccess a.status = false ∧
      (∀ check, ¬(a.status = 400 ∧ Json.decode Check.read a.text = .ok check ∧ check.list ≠ [])) ∧
      a.verdict = .error a.failure) := by
  cases hsuccess : Http.isSuccess a.status with
  | true =>
    cases hblank : Text.isBlank a.text with
    | true => exact .inl ⟨rfl, rfl, verdict_of_blank hsuccess hblank⟩
    | false => exact .inr (.inl ⟨rfl, rfl, verdict_of_success hsuccess hblank⟩)
  | false =>
    have hverdict := verdict_of_failure hsuccess
    cases hinvalid : Client.invalid? a.failure with
    | some check =>
      obtain ⟨hstatus, hdecode, hlist⟩ := invalid?_failure.mp hinvalid
      rw [hinvalid] at hverdict
      exact .inr (.inr (.inl ⟨hstatus, check, hdecode, hlist, hverdict⟩))
    | none =>
      rw [hinvalid] at hverdict
      refine .inr (.inr (.inr ⟨rfl, fun check hcheck => ?_, hverdict⟩))
      rw [invalid?_failure.mpr hcheck] at hinvalid
      cases hinvalid

theorem not_isSuccess_400 : Http.isSuccess 400 = false := by decide

theorem verdict_eq_ok : a.verdict = .ok check ↔
    (Http.isSuccess a.status = true ∧ Text.isBlank a.text = true ∧ check = Check.empty) ∨
    (Http.isSuccess a.status = true ∧ Text.isBlank a.text = false ∧
      Json.decode Check.read a.text = .ok check) ∨
    (a.status = 400 ∧ Json.decode Check.read a.text = .ok check ∧ check.list ≠ []) := by
  rcases a.verdict_cases with ⟨hsuccess, hblank, hverdict⟩ | ⟨hsuccess, hblank, hverdict⟩ |
    ⟨hstatus, found, hdecode, hlist, hverdict⟩ | ⟨hsuccess, hnone, hverdict⟩
  · have hstatus : a.status ≠ 400 := fun h => by simp [h, not_isSuccess_400] at hsuccess
    simp only [hverdict, hsuccess, hblank, hstatus, Except.ok.injEq, true_and, false_and,
      Bool.true_eq_false, or_false]
    exact eq_comm
  · have hstatus : a.status ≠ 400 := fun h => by simp [h, not_isSuccess_400] at hsuccess
    rw [hverdict]
    cases Json.decode Check.read a.text <;>
      simp [hsuccess, hblank, hstatus]
  · have hfailure : Http.isSuccess a.status ≠ true := by simp [hstatus, not_isSuccess_400]
    rw [hverdict, hdecode]
    constructor
    · intro heq
      cases heq
      exact .inr (.inr ⟨hstatus, rfl, hlist⟩)
    · rintro (⟨hsuccess, -⟩ | ⟨hsuccess, -⟩ | ⟨-, heq, -⟩)
      · exact absurd hsuccess hfailure
      · exact absurd hsuccess hfailure
      · exact congrArg _ (Except.ok.inj heq)
  · simp [hverdict, hsuccess, hnone check]

theorem verdict_eq_decode {e : Json.ReadError} : a.verdict = .error (.decode e) ↔
    Http.isSuccess a.status = true ∧ Text.isBlank a.text = false ∧
      Json.decode Check.read a.text = .error e := by
  rcases a.verdict_cases with ⟨hsuccess, hblank, hverdict⟩ | ⟨hsuccess, hblank, hverdict⟩ |
    ⟨hstatus, found, hdecode, hlist, hverdict⟩ | ⟨hsuccess, hnone, hverdict⟩
  · simp [hverdict, hblank]
  · rw [hverdict]
    cases Json.decode Check.read a.text <;> simp [hsuccess, hblank]
  · simp [hverdict, hstatus, not_isSuccess_400]
  · simp [hverdict, hsuccess, failure]

theorem verdict_eq_failure (hcheck : ∀ check, a.verdict ≠ .ok check)
    (hdecode : ∀ e, a.verdict ≠ .error (.decode e)) : a.verdict = .error a.failure := by
  rcases a.verdict_cases with ⟨-, -, hverdict⟩ | ⟨-, -, hverdict⟩ |
    ⟨-, found, -, -, hverdict⟩ | ⟨-, -, hverdict⟩
  · exact absurd hverdict (hcheck _)
  · cases hread : Json.decode Check.read a.text with
    | ok found =>
      rw [hread] at hverdict
      exact absurd hverdict (hcheck found)
    | error e =>
      rw [hread] at hverdict
      exact absurd hverdict (hdecode e)
  · exact absurd hverdict (hcheck found)
  · exact hverdict

theorem decode_ne_ok_of_verdict {message body : String} {diagnostics : List Diagnostic}
    (hverdict : a.verdict = .error (.service 400 message diagnostics body))
    (hdiagnostics : diagnostics ≠ []) : Json.decode Check.read a.text ≠ .ok check := by
  intro hdecode
  have hfailure : a.verdict = .error a.failure :=
    verdict_eq_failure (fun _ h => by simp [hverdict] at h) (fun _ h => by simp [hverdict] at h)
  rw [hverdict, failure] at hfailure
  injection hfailure with hfailure
  injection hfailure with hstatus _ hdiags _
  cases hread : Json.decode Failure.read a.text with
  | error e =>
    rw [hread] at hdiags
    exact hdiagnostics hdiags
  | ok document =>
    rw [hread] at hdiags
    have hlist : diagnostics = check.list :=
      hdiags.trans (congrArg (·.getD []) (Check.diagnostics_eq_of_decode hread hdecode))
    have hok := verdict_eq_ok.mpr (.inr (.inr ⟨hstatus.symm, hdecode, hlist ▸ hdiagnostics⟩))
    rw [hverdict] at hok
    cases hok

end Http.Answer

namespace Http.Exchange

variable {α : Type} {n n' : Network}

theorem run_tryCatch_ok {x : Exchange α} {a : α} (h : x.run n = (.ok a, n'))
    (handle : ClientError → Exchange α) : (tryCatch x handle).run n = (.ok a, n') := by
  rw [ExceptT.run_tryCatch]
  change StateT.bind x.run _ n = _
  simp only [StateT.bind, h]
  rfl

theorem run_tryCatch_error {x : Exchange α} {e : ClientError} (h : x.run n = (.error e, n'))
    (handle : ClientError → Exchange α) : (tryCatch x handle).run n = (handle e).run n' := by
  rw [ExceptT.run_tryCatch]
  change StateT.bind x.run _ n = _
  simp only [StateT.bind, h]
  rfl

end Http.Exchange

namespace Client

variable {client : Client} {organization yaml : String} {url : Url} {n : Network} {r : Reply}
  {replies : List Reply} {answer : Answer}

theorem run_checkYaml
    (haddress : client.api.address? (.check organization yaml) = some url)
    (hreach : n.reaches url.origin = true) (hreplies : n.replies = r :: replies)
    (hanswer : r.answer = .ok answer) :
    (client.checkYaml organization yaml).run n =
      (answer.verdict, n.after [client.api.request (.check organization yaml) url] replies) := by
  have hcall := Api.run_call_cons (Answer.jsonOr Check.empty) haddress hreach hreplies
  rw [Reply.read, hanswer] at hcall
  unfold checkYaml Answer.verdict
  cases hread : answer.success.bind (Answer.jsonOr Check.empty) with
  | ok response =>
    exact Http.Exchange.run_tryCatch_ok
      (run_bind_ok (hcall.trans (congrArg (·, _) hread)) _) _
  | error e =>
    refine (Http.Exchange.run_tryCatch_error
      (run_bind_error (hcall.trans (congrArg (·, _) hread)) _) _).trans ?_
    dsimp only
    cases invalid? e <;> rfl

/-- Which of its outcomes a check has is decided by the code and the body of the answer, and an
error of the service keeps both. Whoever reads a body as a failure and as a check finds the same
diagnostics, so that an error of code 400 that has some comes with a body that is no check. -/
theorem checkYaml_exact
    (haddress : client.api.address? (.check organization yaml) = some url)
    (hreach : n.reaches url.origin = true) (hreplies : n.replies = r :: replies)
    (hanswer : r.answer = .ok answer) :
    ∃ result, (client.checkYaml organization yaml).run n =
        (result, n.after [client.api.request (.check organization yaml) url] replies) ∧
      (∀ check, result = .ok check ↔
        (Http.isSuccess answer.status = true ∧ Text.isBlank answer.text = true ∧
          check = Check.empty) ∨
        (Http.isSuccess answer.status = true ∧ Text.isBlank answer.text = false ∧
          Json.decode Check.read answer.text = .ok check) ∨
        (answer.status = 400 ∧ Json.decode Check.read answer.text = .ok check ∧
          check.list ≠ [])) ∧
      (∀ e, result = .error (.decode e) ↔
        Http.isSuccess answer.status = true ∧ Text.isBlank answer.text = false ∧
          Json.decode Check.read answer.text = .error e) ∧
      ((∀ check, result ≠ .ok check) → (∀ e, result ≠ .error (.decode e)) →
        ∃ message diagnostics,
          result = .error (.service answer.status message diagnostics answer.text)) ∧
      (∀ message diagnostics body, result = .error (.service 400 message diagnostics body) →
        diagnostics ≠ [] → ∀ check, Json.decode Check.read answer.text ≠ .ok check) ∧
      (∀ text failure check, Json.decode Failure.read text = .ok failure →
        Json.decode Check.read text = .ok check → failure.diagnostics = check.diagnostics) := by
  refine ⟨answer.verdict, run_checkYaml haddress hreach hreplies hanswer,
    fun check => Answer.verdict_eq_ok, fun e => Answer.verdict_eq_decode, fun hcheck hdecode => ?_,
    fun message diagnostics body hverdict hdiagnostics check =>
      Answer.decode_ne_ok_of_verdict hverdict hdiagnostics,
    fun _ _ _ => Check.diagnostics_eq_of_decode⟩
  exact ⟨_, _, Answer.verdict_eq_failure hcheck hdecode⟩

theorem checkYaml_exact_refused :
    let body := "[null,null,null,[[\"unknown name\"]]]"
    ∃ check n, ((Client.mk .standard).checkYaml "acme" "a: b").run
        ⟨fun _ => true, [.whole 400 (Text.Utf8.encode body)], []⟩ = (.ok check, n) ∧
      check.list = [⟨"unknown name", none, none⟩] := by
  intro body
  have haddress : (Client.mk .standard).api.address? (.check "acme" "a: b") = some ⟨"https",
      "api.pulumi.com", ["api", "preview", "environments", "acme", "yaml", "check"], none⟩ := by
    decide +kernel
  have hanswer : (Reply.whole 400 (Text.Utf8.encode body)).answer = .ok ⟨400, body⟩ := by
    decide +kernel
  have hbody : (Json.decode Check.read body).toOption.map (·.list) =
      some [⟨"unknown name", none, none⟩] := by decide +kernel
  obtain ⟨result, hrun, hok, -⟩ := checkYaml_exact
    (n := ⟨fun _ => true, [.whole 400 (Text.Utf8.encode body)], []⟩) haddress rfl rfl hanswer
  cases hdecode : Json.decode Check.read body with
  | error e =>
    rw [hdecode] at hbody
    cases hbody
  | ok check =>
    rw [hdecode] at hbody
    have hlist : check.list = [⟨"unknown name", none, none⟩] := Option.some.inj hbody
    have hresult := (hok check).mpr (.inr (.inr ⟨rfl, hdecode, by simp [hlist]⟩))
    exact ⟨check, _, hresult ▸ hrun, hlist⟩

end Client
end EnvClient
