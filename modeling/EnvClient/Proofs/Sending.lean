import EnvClient.Proofs.Checking
import EnvClient.Proofs.DefinitionText

/-! Definitions on their way to the service. What is sent to update an environment or to check a
definition is the text of the definition, which the service can read back. -/
namespace EnvClient

open Http (Network Request)

namespace Http.Exchange

variable {α β : Type}

theorem network_bind {x : Exchange α} {f : α → Exchange β} (hf : ∀ a n, ((f a).run n).2 = n)
    (n : Network) : ((x >>= f).run n).2 = (x.run n).2 := by
  rcases hrun : x.run n with ⟨result, after⟩
  cases result with
  | ok a => rw [run_bind_ok hrun, hf]
  | error e => rw [run_bind_error hrun]

theorem network_tryCatch {x : Exchange α} {handle : ClientError → Exchange α}
    (hhandle : ∀ e n, ((handle e).run n).2 = n) (n : Network) :
    ((tryCatch x handle).run n).2 = (x.run n).2 := by
  rcases hrun : x.run n with ⟨result, after⟩
  cases result with
  | ok a => rw [run_tryCatch_ok hrun]
  | error e => rw [run_tryCatch_error hrun, hhandle]

end Http.Exchange

namespace Api

variable {api : Api} {op : Operation} {n : Network}

/-- What is sent for an operation: its request, if there is a host that takes it. -/
def requests (api : Api) (op : Operation) (n : Network) : List Request :=
  match api.address? op with
  | some url => if n.reaches url.origin then [api.request op url] else []
  | none => []

theorem sent_exchange_eq (api : Api) (op : Operation) (n : Network) :
    ((api.exchange op).run n).2.sent = n.sent ++ api.requests op n := by
  rw [requests]
  cases haddress : api.address? op with
  | none =>
    rw [exchange, haddress]
    exact (List.append_nil _).symm
  | some url =>
    dsimp only
    split
    · rename_i hreach
      exact sent_exchange haddress hreach
    · rename_i hreach
      rw [exchange, haddress]
      change ((Http.send url (api.request op url)) n).2.sent = _
      rw [Http.send, Network.send, Bool.eq_false_iff.mpr hreach]
      exact (List.append_nil _).symm

theorem sent_call {α : Type} (api : Api) (op : Operation)
    (read : Http.Answer → Except ClientError (Response α)) (n : Network) :
    ((api.call op read).run n).2.sent = n.sent ++ api.requests op n := by
  have hread : ∀ (answer : Http.Answer) n, ((MonadExcept.ofExcept (answer.success.bind read) :
      Http.Exchange (Response α)).run n).2 = n := by
    intro answer n
    cases answer.success.bind read <;> rfl
  rw [call, Http.Exchange.network_bind hread, sent_exchange_eq]

theorem body_of_mem_requests {request : Request} (h : request ∈ api.requests op n) :
    request.body = op.yaml?.getD "" := by
  rw [requests] at h
  split at h
  · split at h
    · cases List.mem_singleton.mp h
      rfl
    · cases h
  · cases h

end Api

namespace Client

theorem sent_update (client : Client) (organization environment : String) (d : Definition)
    (n : Network) : ((client.update organization environment d).run n).2.sent =
      n.sent ++ client.api.requests (.update organization environment d.toYaml) n := by
  rw [update, updateYaml, Http.Exchange.network_bind fun _ _ => rfl]
  exact Api.sent_call _ _ _ _

theorem sent_check (client : Client) (organization : String) (d : Definition) (n : Network) :
    ((client.check organization d).run n).2.sent =
      n.sent ++ client.api.requests (.check organization d.toYaml) n := by
  rw [check, checkYaml, Http.Exchange.network_tryCatch, Http.Exchange.network_bind fun _ _ => rfl]
  · exact Api.sent_call _ _ _ _
  · intro e n
    cases invalid? e <;> rfl

end Client

namespace Definition

/-- A definition that is nested no deeper than texts may be is read back from its text just if no
value beside the sections has the name of one. Every definition that was read, be it from JSON or
from a text, is such a one, so that the service reads it back from what it is sent. -/
theorem read_back :
    (∀ d : Definition, d.Sorted → d.toJson.nesting ≤ Yaml.maxDepth →
      (ofYaml? d.toYaml = some d ↔ d.Apart)) ∧
    (∀ text d, Json.decode read text = .ok d ∨ ofYaml? text = some d →
      d.Sorted ∧ d.toJson.nesting ≤ Yaml.maxDepth ∧ d.Apart ∧
      ∀ (client : Client) (organization environment : String) (n : Network),
        ((client.update organization environment d).run n).2.sent =
          n.sent ++ client.api.requests (.update organization environment d.toYaml) n ∧
        ((client.check organization d).run n).2.sent =
          n.sent ++ client.api.requests (.check organization d.toYaml) n ∧
        (∀ request ∈ client.api.requests (.update organization environment d.toYaml) n,
          ofYaml? request.body = some d) ∧
        (∀ request ∈ client.api.requests (.check organization d.toYaml) n,
          ofYaml? request.body = some d)) := by
  refine ⟨fun d => ofYaml?_toYaml_iff, fun text d hread => ?_⟩
  have hreadable : d.Readable := hread.elim readable_of_decode readable_of_ofYaml?
  obtain ⟨hsorted, hnesting⟩ := sorted_and_nesting_le_iff.mpr fun values hmem =>
    (hreadable values hmem).1
  have hback : ofYaml? d.toYaml = some d := ofYaml?_toYaml hreadable
  refine ⟨hsorted, hnesting, fun values hmem => (hreadable values hmem).2, ?_⟩
  intro client organization environment n
  refine ⟨client.sent_update organization environment d n, client.sent_check organization d n,
    fun request hmem => ?_, fun request hmem => ?_⟩
  · rw [Api.body_of_mem_requests hmem]
    exact hback
  · rw [Api.body_of_mem_requests hmem]
    exact hback

/-- A text that looks like null, and an empty section; a value with the name of a section. -/
theorem read_back_sections :
    let text := "\x7b\"imports\":[\"base\"],\"values\":\x7b\"files\":\x7b\x7d,\"a\":[\"~\"]\x7d\x7d"
    let d : Definition := ⟨["base"], some ⟨none, none, some [], [("a", .array [.string "~"])]⟩⟩
    let d' : Definition := ⟨[], some ⟨none, none, none, [("files", .null)]⟩⟩
    Json.decode read text = .ok d ∧
      ((⟨.standard⟩ : Client).api.requests (.update "acme" "dev" d.toYaml)
        ⟨fun _ => true, [], []⟩).map (fun request => ofYaml? request.body) = [some d] ∧
      ofYaml? d.toYaml = some d ∧ ofYaml? d'.toYaml ≠ some d' := by
  intro text d d'
  obtain ⟨hiff, hread⟩ := read_back
  have hdecode : Json.decode read text = .ok d := by decide +kernel
  obtain ⟨hsorted, hnesting, hapart, hsent⟩ := hread text d (.inl hdecode)
  have hsorted' : d'.Sorted := by
    intro values hmem
    cases hmem
    exact ⟨fun s members hmem => (by cases s <;> cases hmem), by decide⟩
  obtain ⟨-, -, hupdate, -⟩ := hsent ⟨.standard⟩ "acme" "dev" ⟨fun _ => true, [], []⟩
  have haddress : (Api.standard.address? (.update "acme" "dev" d.toYaml)).isSome := by
    decide +kernel
  obtain ⟨url, hurl⟩ := Option.isSome_iff_exists.mp haddress
  have hrequests : Api.standard.requests (.update "acme" "dev" d.toYaml) ⟨fun _ => true, [], []⟩ =
      [Api.standard.request (.update "acme" "dev" d.toYaml) url] := by
    rw [Api.requests, hurl]
    rfl
  refine ⟨hdecode, ?_, (hiff d hsorted hnesting).mpr hapart, fun h => ?_⟩
  · change (Api.standard.requests _ _).map _ = _
    rw [hrequests, List.map_singleton, hupdate _ (hrequests ▸ List.mem_singleton_self _)]
  · have hapart' := (hiff d' hsorted' (by decide)).mp h
    exact hapart' _ rfl .files List.mem_cons_self

end Definition
end EnvClient
