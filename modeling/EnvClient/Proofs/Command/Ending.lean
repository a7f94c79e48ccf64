import EnvClient.Proofs.Command.Trace
import EnvClient.Proofs.Preparation

/-! How runs end, and what the end of a course says about the replies. Each operation may fail or
bring a complaint; the first that does ends the course. -/
namespace EnvClient

open Http (Answer Reply)

namespace Operation

/-- The diagnostics that come with the reply to an operation, or none at all if the call fails. -/
def diagnostics? (r : Reply) : Operation → Option (List Diagnostic)
  | .list .. => (r.payload? (α := Page)).map fun _ => []
  | .create .. | .delete .. => r.success?.map fun _ => []
  | .definition .. | .decrypted .. => r.definition?.map fun _ => []
  | .update .. => r.report?.map Report.list
  | .check .. => (r.answer.bind Answer.verdict).toOption.map Check.list
  | .openSession .. => (r.payload? (α := Session)).map fun session => session.diagnostics.getD []
  | .read .. => (r.payload? (α := Environment)).map fun _ => []
  | .property .. => (r.payload? (α := Record)).map fun _ => []

/-- Each operation has a reply, and none of the replies is a failure or has diagnostics. -/
def Accepted (ops : List Operation) (replies : List Reply) : Prop :=
  ops.length ≤ replies.length ∧ ∀ p ∈ ops.zip replies, p.1.diagnostics? p.2 = some []

def Complains (ops : List Operation) (replies : List Reply) (ds : List Diagnostic) : Prop :=
  ds ≠ [] ∧ ∃ p ∈ ops.zip replies, p.1.diagnostics? p.2 = some ds

instance decidableAccepted (ops : List Operation) (replies : List Reply) :
    Decidable (Accepted ops replies) := inferInstanceAs (Decidable (_ ∧ _))

instance decidableComplains (ops : List Operation) (replies : List Reply)
    (ds : List Diagnostic) : Decidable (Complains ops replies ds) :=
  inferInstanceAs (Decidable (_ ∧ _))

variable {op : Operation} {ops : List Operation} {r : Reply} {replies : List Reply}
  {ds : List Diagnostic}

theorem accepted_nil (replies : List Reply) : Accepted [] replies := ⟨Nat.zero_le _, nofun⟩

theorem not_accepted_of_no_reply : ¬Accepted (op :: ops) [] := fun h => absurd h.1 (by simp)

theorem accepted_cons : Accepted (op :: ops) (r :: replies) ↔
    op.diagnostics? r = some [] ∧ Accepted ops replies := by
  simp only [Accepted, List.zip_cons_cons, List.forall_mem_cons, List.length_cons,
    Nat.add_le_add_iff_right]
  exact and_left_comm

theorem not_complains_nil : ¬Complains [] replies ds := fun ⟨_, _, hmem, _⟩ => by cases hmem

theorem not_complains_of_no_reply : ¬Complains ops [] ds := fun ⟨_, _, hmem, _⟩ => by
  rw [List.zip_nil_right] at hmem
  cases hmem

theorem complains_cons : Complains (op :: ops) (r :: replies) ds ↔
    (ds ≠ [] ∧ op.diagnostics? r = some ds) ∨ Complains ops replies ds := by
  simp only [Complains, List.zip_cons_cons, List.mem_cons, exists_eq_or_imp, and_or_left]

end Operation

theorem Diagnostic.lines_eq (ds : List Diagnostic) : lines ds = String.join (ds.map fun d =>
    (d.path.elim d.summary fun path => path ++ ": " ++ d.summary) ++ "\n") := by
  unfold lines
  congr 1
  apply List.map_congr_left
  intro d _
  unfold line
  cases d.path <;> rfl

namespace Ending

def isSuccess : Ending → Bool
  | done .. | written .. => true
  | unheard | failed _ | complaint _ => false

def contents : Ending → List String
  | written properties options => NamedProperties.written properties options
  | _ => []

theorem run_write {properties : Option NamedProperties} {options : EnvironmentOptions}
    {r : Resources} {result : Except StorageFault String} {d : Disk}
    (h : NamedProperties.write properties options r.disk = (result, d)) :
    (Run.write properties options).run r =
      (result.mapError fun fault => .client (.storage fault), { r with disk := d }) := by
  change Run.write properties options r = _
  rw [Run.write, h]

theorem outcome_run (ending : Ending) (fault : TransportFault) {r : Resources}
    (hsorted : Members.Sorted r.disk.files) (hnew : r.disk.GivesNewPaths) :
    let run := (ending.run fault).run r
    let outcome := Outcome.ofResult run.1
    (outcome.code = .success ↔
      ending.isSuccess = true ∧ r.disk.firstFault? ending.contents = none) ∧
    (outcome.code ≠ .success → outcome.code = .failure ∧ outcome.output = "" ∧
      run.2.disk.files = r.disk.files) := by
  have hfailed : ∀ {outcome : Outcome}, outcome.code = .failure → outcome.code ≠ .success := by
    intro outcome h
    rw [h]
    decide
  cases ending with
  | done output errors => exact ⟨iff_of_true rfl ⟨rfl, rfl⟩, fun hne => absurd rfl hne⟩
  | written properties options =>
    rcases NamedProperties.write_cases properties options hsorted hnew with
      ⟨hkept, text, d', hrun⟩ | ⟨fault, hfault, d', hrun, hfiles⟩
    · rw [run, run_bind_ok (run_write hrun)]
      exact ⟨iff_of_true rfl ⟨rfl, hkept⟩, fun hne => absurd rfl hne⟩
    · rw [run, run_bind_error (run_write hrun)]
      refine ⟨iff_of_false (hfailed rfl) fun h => ?_, fun _ => ⟨rfl, rfl, hfiles⟩⟩
      cases hfault.symm.trans h.2
  | _ =>
    exact ⟨iff_of_false (hfailed rfl) fun h => Bool.false_ne_true h.1, fun _ => ⟨rfl, rfl, rfl⟩⟩

end Ending

namespace Course

variable {α : Type} {op : Operation} {read : Reply → Except ClientError α}
  {diagnostics : α → List Diagnostic}

/-- The end says how the replies took the operations, and which files there are if all went
well. -/
structure Tells (c : Course) (replies : List Reply) (contents : List String) : Prop where
  success : c.ending.isSuccess = true ↔ Operation.Accepted c.operations replies
  contents : c.ending.isSuccess = true → c.ending.contents = contents
  complaint : ∀ ds, Operation.Complains c.operations replies ds → c.ending = .complaint ds

theorem tells_of_isSuccess {ending : Ending} (h : ending.isSuccess = true) (replies : List Reply) :
    Tells ⟨[], ending⟩ replies ending.contents :=
  ⟨iff_of_true h (Operation.accepted_nil replies), fun _ => rfl,
    fun _ hds => absurd hds Operation.not_complains_nil⟩

theorem tells_stop {ending : Ending} {r : Reply} (hfailed : ending.isSuccess = false)
    (hop : op.diagnostics? r ≠ some [])
    (hcomplaint : ∀ ds, op.diagnostics? r = some ds → ending = .complaint ds)
    (replies : List Reply) (contents : List String) :
    Tells ⟨[op], ending⟩ (r :: replies) contents := by
  have hne : ¬ending.isSuccess = true := Bool.eq_false_iff.mp hfailed
  refine ⟨iff_of_false hne fun h => hop (Operation.accepted_cons.mp h).1, fun h => absurd h hne,
    fun ds hds => ?_⟩
  rcases Operation.complains_cons.mp hds with ⟨-, heq⟩ | hnone
  · exact hcomplaint ds heq
  · exact absurd hnone Operation.not_complains_nil

theorem tells_ask (contents : List Reply → List String)
    (hread : ∀ r, op.diagnostics? r = (read r).toOption.map diagnostics)
    {next : α → List Reply → Course}
    (hclean : ∀ r a, read r = .ok a → diagnostics a = [] →
      ∀ replies, (next a replies).Tells replies (contents (r :: replies)))
    (hcomplaint : ∀ a, diagnostics a ≠ [] →
      ∀ replies, next a replies = ⟨[], .complaint (diagnostics a)⟩) (replies : List Reply) :
    (ask op read next replies).Tells replies (contents replies) := by
  cases replies with
  | nil =>
    exact ⟨iff_of_false Bool.false_ne_true Operation.not_accepted_of_no_reply,
      fun h => absurd h Bool.false_ne_true,
      fun _ hds => absurd hds Operation.not_complains_of_no_reply⟩
  | cons r replies =>
    have hop := hread r
    cases hr : read r with
    | error e =>
      rw [hr] at hop
      rw [ask_error hr]
      exact tells_stop rfl (fun h => by cases hop.symm.trans h)
        (fun ds h => by cases hop.symm.trans h) replies _
    | ok a =>
      rw [hr, Except.toOption, Option.map_some] at hop
      rw [ask_ok hr]
      by_cases ha : diagnostics a = []
      · have hrest := hclean r a hr ha replies
        rw [ha] at hop
        refine ⟨?_, hrest.contents, fun ds hds => hrest.complaint ds ?_⟩
        · rw [Operation.accepted_cons, and_iff_right hop]
          exact hrest.success
        · rw [Operation.complains_cons, hop] at hds
          exact hds.resolve_left fun h => h.1 (Option.some.inj h.2).symm
      · rw [hcomplaint a ha]
        exact tells_stop rfl (fun h => ha (Option.some.inj (hop.symm.trans h)))
          (fun ds h => congrArg Ending.complaint (Option.some.inj (hop.symm.trans h))) replies _

theorem tells_last (hread : ∀ r, op.diagnostics? r = (read r).toOption.map diagnostics)
    {ending : α → Ending}
    (hclean : ∀ a, diagnostics a = [] → (ending a).isSuccess = true ∧ (ending a).contents = [])
    (hcomplaint : ∀ a, diagnostics a ≠ [] → ending a = .complaint (diagnostics a))
    (replies : List Reply) : (last op read ending replies).Tells replies [] := by
  refine tells_ask (fun _ => []) hread (fun _ a _ ha rest => ?_) (fun a ha _ => ?_) replies
  · obtain ⟨hsuccess, hcontents⟩ := hclean a ha
    rw [← hcontents]
    exact tells_of_isSuccess hsuccess rest
  · exact congrArg (Course.mk []) (hcomplaint a ha)

theorem tells_reported (hread : ∀ r, op.diagnostics? r = (read r).toOption.map diagnostics)
    (confirmation : String) (replies : List Reply) :
    (last op read (fun a => .reported (diagnostics a) confirmation) replies).Tells replies [] := by
  refine tells_last hread (fun a ha => ?_) (fun a ha => ?_) replies
  · rw [ha]
    exact ⟨rfl, rfl⟩
  · exact if_neg (mt List.isEmpty_iff.mp ha)

theorem tells_silent (hread : ∀ r, op.diagnostics? r = (read r).toOption.map fun _ => [])
    {output : α → String} {errors : String} (replies : List Reply) :
    (last op read (fun a => .done (output a) errors) replies).Tells replies [] :=
  tells_last hread (fun _ _ => ⟨rfl, rfl⟩) (fun _ hne => absurd rfl hne) replies

end Course
end EnvClient
