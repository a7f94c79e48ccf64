import EnvClient.Format
import EnvClient.Proofs.Property.WellFormed

/-! What redacted output can depend on. Two environments that differ only in what their secrets
hold, and in descriptions that are never shown, are written alike. -/
namespace EnvClient

namespace Property

theorem flagged_iff {key : String} {metadata : Members Json} :
    flagged key metadata = true ↔ Members.get? key metadata = some (.bool true) := by
  unfold flagged
  cases Members.get? key metadata with
  | none => simp
  | some value => cases value <;> simp [Json.bool?]

def MarksSecret (metadata : Members Json) : Prop :=
  Members.get? secretKey metadata = some (.bool true)

theorem flagged_secretKey_iff {metadata : Members Json} :
    flagged secretKey metadata = true ↔ MarksSecret metadata :=
  flagged_iff

/-- Trees that differ at most in what their secret envelopes hold and in metadata. Nothing is
asked of the payloads of two secret envelopes, not even that they have one shape. -/
inductive SecretEquivalent : Property → Property → Prop where
  | scalar {p : Property} (scalar : p.isScalar = true) : SecretEquivalent p p
  | sequence {left right : List Property} (length : left.length = right.length)
      (items : ∀ (i : Nat) (p q : Property), left[i]? = some p → right[i]? = some q →
        SecretEquivalent p q) :
      SecretEquivalent (sequence left) (sequence right)
  | mapping {left right : List (String × Property)}
      (names : ∀ name, name ∈ Members.names left ↔ name ∈ Members.names right)
      (entries : ∀ (name : String) (p q : Property), Members.get? name left = some p →
        Members.get? name right = some q → SecretEquivalent p q) :
      SecretEquivalent (mapping left) (mapping right)
  | hidden (p q : Property) {left right : Members Json} (hleft : MarksSecret left)
      (hright : MarksSecret right) : SecretEquivalent (envelope p left) (envelope q right)
  | shown {p q : Property} {left right : Members Json} (hleft : ¬ MarksSecret left)
      (hright : ¬ MarksSecret right) (payload : SecretEquivalent p q) :
      SecretEquivalent (envelope p left) (envelope q right)

theorem redact_envelope_of_marksSecret {metadata : Members Json} (h : MarksSecret metadata)
    (payload : Property) : (envelope payload metadata).redact = .string redacted := by
  unfold redact
  rw [plain, flagged_secretKey_iff.mpr h]
  rfl

theorem redact_envelope_of_not_marksSecret {metadata : Members Json} (h : ¬ MarksSecret metadata)
    (payload : Property) : (envelope payload metadata).redact = payload.redact := by
  rw [← flagged_secretKey_iff] at h
  unfold redact
  rw [plain, if_neg]
  simp [h]

theorem SecretEquivalent.redact_eq {p q : Property} (h : SecretEquivalent p q)
    (hp : p.WellFormed) (hq : q.WellFormed) : p.redact = q.redact := by
  induction h with
  | scalar => rfl
  | @sequence left right length items ih =>
    rw [wellFormed_sequence] at hp hq
    unfold redact
    rw [plain_sequence, plain_sequence]
    congr 1
    apply List.ext_getElem (by simp [length])
    intro i hi hj
    rw [List.length_map] at hi hj
    rw [List.getElem_map, List.getElem_map]
    exact ih i _ _ (List.getElem?_eq_getElem hi) (List.getElem?_eq_getElem hj)
      (hp _ (List.getElem_mem hi)) (hq _ (List.getElem_mem hj))
  | @mapping left right names entries ih =>
    obtain ⟨hleft, hp⟩ := wellFormed_mapping.mp hp
    obtain ⟨hright, hq⟩ := wellFormed_mapping.mp hq
    unfold redact
    rw [plain_mapping, plain_mapping]
    congr 1
    apply hleft.mapValues_eq hright names
    intro name value other hvalue hother
    exact ih name value other hvalue hother (hp _ (Members.mem_of_get? hvalue))
      (hq _ (Members.mem_of_get? hother))
  | hidden p q hleft hright =>
    rw [redact_envelope_of_marksSecret hleft, redact_envelope_of_marksSecret hright]
  | shown hleft hright payload ih =>
    rw [redact_envelope_of_not_marksSecret hleft, redact_envelope_of_not_marksSecret hright]
    exact ih (wellFormed_envelope.mp hp).1 (wellFormed_envelope.mp hq).1

end Property

theorem Record.isSecret_iff {r : Record} : r.isSecret = true ↔ r.secret = some true := by
  unfold isSecret
  cases r.secret <;> simp

/-- Both records are secret, or neither is and their values are equivalent. -/
def Record.SecretEquivalent (r s : Record) : Prop :=
  (r.secret = some true ∧ s.secret = some true) ∨
    (r.secret ≠ some true ∧ s.secret ≠ some true ∧ r.value.SecretEquivalent s.value)

namespace NamedProperties

structure SecretEquivalent (left right : NamedProperties) : Prop where
  names : ∀ name, name ∈ Members.names left ↔ name ∈ Members.names right
  records : ∀ (name : String) (r s : Record), Members.get? name left = some r →
    Members.get? name right = some s → r.SecretEquivalent s

theorem SecretEquivalent.redact_eq {left right : NamedProperties}
    (h : left.SecretEquivalent right) (hleft : left.WellFormed) (hright : right.WellFormed) :
    left.redact = right.redact := by
  apply hleft.sorted.mapValues_eq hright.sorted h.names
  intro name r s hr hs
  cases h.records name r s hr hs with
  | inl hsecret =>
    rw [if_pos (Record.isSecret_iff.mpr hsecret.1), if_pos (Record.isSecret_iff.mpr hsecret.2)]
  | inr hshown =>
    obtain ⟨hr', hs', hvalue⟩ := hshown
    rw [if_neg (mt Record.isSecret_iff.mp hr'), if_neg (mt Record.isSecret_iff.mp hs')]
    exact hvalue.redact_eq (hleft.values _ (Members.mem_of_get? hr))
      (hright.values _ (Members.mem_of_get? hs))

/-- Equivalent environments are written as one text by the formats that hold any value, as long
as secrets are not to be shown. -/
theorem write_noninterference {left right : NamedProperties} (hleft : left.WellFormed)
    (hright : right.WellFormed) (h : left.SecretEquivalent right) {format : Format}
    (hformat : format = .json ∨ format = .yaml) :
    ∃ text, ∀ (pretend : Bool) (d : Disk),
      NamedProperties.write (some left) ⟨format, false, pretend⟩ d = (.ok text, d) ∧
      NamedProperties.write (some right) ⟨format, false, pretend⟩ d = (.ok text, d) := by
  have hstructured : format.isStructured = true := by
    cases hformat with
    | inl heq => rw [heq]; rfl
    | inr heq => rw [heq]; rfl
  refine ⟨format.value (.object left.redact), fun pretend d => ⟨?_, ?_⟩⟩
  · unfold NamedProperties.write
    rw [if_pos hstructured]
    rfl
  · unfold NamedProperties.write
    rw [if_pos hstructured, h.redact_eq hleft hright]
    rfl

/-- A secret record, and a secret entry of a plain one, whose payloads have two shapes. -/
theorem write_noninterference_shapes :
    let mapping (password : Property) (user : Members Json) : Property := .mapping
      [("password", .envelope password [("secret", .bool true)]),
        ("user", .envelope (.string "admin") user)]
    let left : NamedProperties := [("login", .ofValue (mapping (.string "hunter2") [])),
      ("token", .mk (.string "t0k3n") (some true) none none)]
    let right : NamedProperties := [("login", .ofValue (mapping (.sequence []) [("id", .null)])),
      ("token", .mk .null (some true) (some true) none)]
    left.resolve ≠ right.resolve ∧ left.WellFormed ∧ right.WellFormed ∧
      left.SecretEquivalent right ∧ ∃ text, ∀ (pretend : Bool) (d : Disk),
        NamedProperties.write (some left) ⟨.yaml, false, pretend⟩ d = (.ok text, d) ∧
        NamedProperties.write (some right) ⟨.yaml, false, pretend⟩ d = (.ok text, d) := by
  intro mapping left right
  have hleft : left.WellFormed := ⟨by decide, by decide⟩
  have hright : right.WellFormed := ⟨by decide, by decide⟩
  have hlogin : (mapping (.string "hunter2") []).SecretEquivalent
      (mapping (.sequence []) [("id", .null)]) := by
    refine .mapping (fun _ => Iff.rfl) fun name p q hp hq => ?_
    have hmem := Members.mem_of_get? hp
    simp only [List.mem_cons, Prod.mk.injEq, List.not_mem_nil, or_false] at hmem
    rcases hmem with ⟨rfl, rfl⟩ | ⟨rfl, rfl⟩
    · cases hq
      exact .hidden _ _ rfl rfl
    · cases hq
      exact .shown nofun nofun (.scalar rfl)
  have h : left.SecretEquivalent right := by
    refine ⟨fun _ => Iff.rfl, fun name r s hr hs => ?_⟩
    have hmem := Members.mem_of_get? hr
    simp only [left, List.mem_cons, Prod.mk.injEq, List.not_mem_nil, or_false] at hmem
    rcases hmem with ⟨rfl, rfl⟩ | ⟨rfl, rfl⟩
    · cases hs
      exact Or.inr ⟨nofun, nofun, hlogin⟩
    · cases hs
      exact Or.inl ⟨rfl, rfl⟩
  refine ⟨?_, hleft, hright, h, write_noninterference hleft hright h (Or.inr rfl)⟩
  decide

end NamedProperties
end EnvClient
