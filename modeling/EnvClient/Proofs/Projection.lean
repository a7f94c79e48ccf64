import EnvClient.Projection
import EnvClient.Json.Printer
import EnvClient.Proofs.Property.Unwrap

/-! Projections against the two resolutions of an environment: what is projected is what the
plain values hold, and an entry counts as secret exactly where redacted output hides it. -/
namespace EnvClient

/-- The text of a plain scalar: a number as it is written in JSON, a string as it is. -/
def Json.scalarText? : Json → Option String
  | null => some ""
  | bool value => some (if value then "true" else "false")
  | number value => some (number value).compact
  | string value => some value
  | array _ => none
  | object _ => none

namespace Property

theorem scalarText?_eq_of_not_isEnvelope {p : Property} (h : p.isEnvelope = false) :
    p.scalarText? = p.resolve.scalarText? := by
  cases p with
  | envelope payload metadata => cases h
  | sequence items =>
    unfold resolve
    rw [plain_sequence]
    rfl
  | mapping entries =>
    unfold resolve
    rw [plain_mapping]
    rfl
  | _ => rfl

theorem redact_eq_resolve_of_scalarText? {p : Property} {text : String}
    (h : p.scalarText? = some text) : p.redact = p.resolve := by
  cases p with
  | envelope payload metadata => cases h
  | sequence items => cases h
  | mapping entries => cases h
  | _ => rfl

theorem resolve_eq_object {p : Property} {members : Members Json} (h : p.isEnvelope = false)
    (hobject : p.resolve = .object members) :
    ∃ entries, p = mapping entries ∧ members = Members.mapValues resolve entries := by
  cases p with
  | envelope payload metadata => cases h
  | sequence items =>
    unfold resolve at hobject
    rw [plain_sequence] at hobject
    cases hobject
  | mapping entries =>
    unfold resolve at hobject
    rw [plain_mapping, Json.object.injEq] at hobject
    exact ⟨entries, rfl, hobject.symm⟩
  | _ => cases hobject

end Property

namespace NamedProperties

def projected? (inherited : Bool) (p : Property) : Option Projected :=
  p.resolve.scalarText?.map fun text => ⟨text, inherited || p.unwrap.2⟩

theorem projectEntry_eq (inherited : Bool) (entry : String × Property) :
    projectEntry inherited entry = (projected? inherited entry.2).map (entry.1, ·) := by
  unfold projectEntry projected?
  rw [Property.resolve_eq_of_unwrap,
    ← Property.scalarText?_eq_of_not_isEnvelope (Property.isEnvelope_unwrap entry.2),
    Option.map_map]
  rfl

/-- The section that is projected: the entries below the envelopes around it, and whether its
record or one of these envelopes is secret. -/
theorem project_eq_of_mapping {key : String} {properties : NamedProperties} {record : Record}
    {entries : List (String × Property)} (hget : Members.get? key properties = some record)
    (hcore : record.value.unwrap.1 = .mapping entries) :
    properties.project key =
      Members.chosen (projected? (record.isSecret || record.value.unwrap.2)) entries := by
  unfold project Members.chosen
  simp only [hget, hcore, Property.entries?, Option.getD_some]
  congr 1
  funext entry
  exact projectEntry_eq _ entry

theorem project_eq_nil {key : String} {properties : NamedProperties}
    (h : ∀ record, Members.get? key properties = some record →
      ∀ entries, record.value.unwrap.1 ≠ .mapping entries) : properties.project key = [] := by
  unfold project
  cases hget : Members.get? key properties with
  | none => rfl
  | some record =>
    have hcore := h record hget
    have hnone : record.value.unwrap.1.entries? = none := by
      cases hcase : record.value.unwrap.1 with
      | mapping entries => exact absurd hcase (hcore entries)
      | _ => rfl
    simp only [hnone]
    rfl

theorem project_cases (key : String) (properties : NamedProperties) :
    (∃ record entries, Members.get? key properties = some record ∧
      record.value.unwrap.1 = .mapping entries ∧ properties.project key =
        Members.chosen (projected? (record.isSecret || record.value.unwrap.2)) entries) ∨
    properties.project key = [] := by
  by_cases hsection : ∃ record entries, Members.get? key properties = some record ∧
      record.value.unwrap.1 = .mapping entries
  · obtain ⟨record, entries, hrecord, hcore⟩ := hsection
    exact Or.inl ⟨record, entries, hrecord, hcore, project_eq_of_mapping hrecord hcore⟩
  · right
    apply project_eq_nil
    exact fun record hrecord entries hcore => hsection ⟨record, entries, hrecord, hcore⟩

theorem get?_resolve (key : String) (properties : NamedProperties) :
    Members.get? key properties.resolve =
      (Members.get? key properties).map fun record => record.value.resolve :=
  Members.get?_mapValues _ key properties

theorem get?_redact (key : String) (properties : NamedProperties) :
    Members.get? key properties.redact = (Members.get? key properties).map fun record =>
      if record.isSecret then .string Property.redacted else record.value.redact :=
  Members.get?_mapValues _ key properties

theorem WellFormed.sorted_entries {key : String} {properties : NamedProperties} {record : Record}
    {entries : List (String × Property)} (h : properties.WellFormed)
    (hrecord : Members.get? key properties = some record)
    (hcore : record.value.unwrap.1 = .mapping entries) : Members.Sorted entries := by
  have hvalue := h.values _ (Members.mem_of_get? hrecord)
  have hentries := Property.wellFormed_unwrap hvalue
  rw [hcore] at hentries
  exact (Property.wellFormed_mapping.mp hentries).1

theorem exists_of_get?_project {key name : String} {properties : NamedProperties}
    (h : properties.WellFormed) {projected : Projected}
    (hget : Members.get? name (properties.project key) = some projected) :
    ∃ record entries p, Members.get? key properties = some record ∧
      record.value.unwrap.1 = .mapping entries ∧ Members.get? name entries = some p ∧
      projected? (record.isSecret || record.value.unwrap.2) p = some projected := by
  cases project_cases key properties with
  | inl hsection =>
    obtain ⟨record, entries, hrecord, hcore, hproject⟩ := hsection
    rw [hproject, (h.sorted_entries hrecord hcore).get?_chosen] at hget
    obtain ⟨p, hp, hprojected⟩ := Option.bind_eq_some_iff.mp hget
    exact ⟨record, entries, p, hrecord, hcore, hp, hprojected⟩
  | inr hnil =>
    rw [hnil] at hget
    cases hget

theorem get?_resolve_of_mapping {key : String} {properties : NamedProperties} {record : Record}
    {entries : List (String × Property)} (hrecord : Members.get? key properties = some record)
    (hcore : record.value.unwrap.1 = .mapping entries) :
    Members.get? key properties.resolve =
      some (.object (Members.mapValues Property.resolve entries)) := by
  rw [get?_resolve, hrecord, Option.map_some, Property.resolve_eq_of_unwrap, hcore]
  unfold Property.resolve
  rw [Property.plain_mapping]

theorem get?_redact_of_secret {key : String} {properties : NamedProperties} {record : Record}
    (hrecord : Members.get? key properties = some record)
    (hsecret : (record.isSecret || record.value.unwrap.2) = true) :
    Members.get? key properties.redact = some (.string Property.redacted) := by
  rw [get?_redact, hrecord, Option.map_some, Property.redact_eq_of_unwrap]
  cases hown : record.isSecret with
  | true => rfl
  | false =>
    rw [hown, Bool.false_or] at hsecret
    rw [hsecret]
    rfl

theorem get?_redact_of_mapping {key : String} {properties : NamedProperties} {record : Record}
    {entries : List (String × Property)} (hrecord : Members.get? key properties = some record)
    (hcore : record.value.unwrap.1 = .mapping entries)
    (hsecret : (record.isSecret || record.value.unwrap.2) = false) :
    Members.get? key properties.redact =
      some (.object (Members.mapValues Property.redact entries)) := by
  obtain ⟨hown, hlayers⟩ := Bool.or_eq_false_iff.mp hsecret
  rw [get?_redact, hrecord, Option.map_some, hown, Property.redact_eq_of_unwrap, hlayers, hcore]
  unfold Property.redact
  rw [Property.plain_mapping]
  rfl

/-- How the projection of a section agrees with the resolved and the redacted environment. -/
structure Agrees (properties : NamedProperties) (key : String) (projection : Members Projected) :
    Prop where
  sorted : Members.Sorted projection
  /-- Nothing comes of a section that is missing or no object. -/
  empty : (∀ members, Members.get? key properties.resolve ≠ some (.object members)) →
    projection = []
  /-- The names are those of the scalars in the section, and the texts are theirs. -/
  texts : ∀ members, Members.get? key properties.resolve = some (.object members) →
    ∀ name, (Members.get? name projection).map Projected.text =
      (Members.get? name members).bind Json.scalarText?
  /-- Redacted output shows what is not secret. -/
  shown : ∀ name entry, Members.get? name projection = some entry → entry.secret = false →
    ∃ members visible, Members.get? key properties.resolve = some (.object members) ∧
      Members.get? key properties.redact = some (.object visible) ∧
      Members.get? name visible = Members.get? name members
  /-- Redacted output hides what is secret, by itself or with its section. -/
  hidden : ∀ name entry, Members.get? name projection = some entry → entry.secret = true →
    Members.get? key properties.redact = some (.string Property.redacted) ∨
    ∃ visible, Members.get? key properties.redact = some (.object visible) ∧
      Members.get? name visible = some (.string Property.redacted)

theorem project_sorted {properties : NamedProperties} (h : properties.WellFormed) (key : String) :
    Members.Sorted (properties.project key) := by
  cases project_cases key properties with
  | inl hsection =>
    obtain ⟨record, entries, hrecord, hcore, hproject⟩ := hsection
    rw [hproject]
    exact (h.sorted_entries hrecord hcore).chosen _
  | inr hnil =>
    rw [hnil]
    exact Members.sorted_nil

theorem project_shown {properties : NamedProperties} (h : properties.WellFormed)
    {key name : String} {projected : Projected}
    (hget : Members.get? name (properties.project key) = some projected)
    (hsecret : projected.secret = false) :
    ∃ members visible, Members.get? key properties.resolve = some (.object members) ∧
      Members.get? key properties.redact = some (.object visible) ∧
      Members.get? name visible = Members.get? name members := by
  obtain ⟨record, entries, p, hrecord, hcore, hp, hprojected⟩ := exists_of_get?_project h hget
  obtain ⟨text, htext, rfl⟩ := Option.map_eq_some_iff.mp hprojected
  obtain ⟨hsection, hlayers⟩ := Bool.or_eq_false_iff.mp hsecret
  refine ⟨_, _, get?_resolve_of_mapping hrecord hcore,
    get?_redact_of_mapping hrecord hcore hsection, ?_⟩
  rw [Members.get?_mapValues, Members.get?_mapValues, hp, Option.map_some, Option.map_some]
  rw [Property.resolve_eq_of_unwrap,
    ← Property.scalarText?_eq_of_not_isEnvelope (Property.isEnvelope_unwrap p)] at htext
  rw [Property.redact_eq_of_unwrap, hlayers, Property.resolve_eq_of_unwrap p,
    ← Property.redact_eq_resolve_of_scalarText? htext]
  rfl

theorem project_hidden {properties : NamedProperties} (h : properties.WellFormed)
    {key name : String} {projected : Projected}
    (hget : Members.get? name (properties.project key) = some projected)
    (hsecret : projected.secret = true) :
    Members.get? key properties.redact = some (.string Property.redacted) ∨
    ∃ visible, Members.get? key properties.redact = some (.object visible) ∧
      Members.get? name visible = some (.string Property.redacted) := by
  obtain ⟨record, entries, p, hrecord, hcore, hp, hprojected⟩ := exists_of_get?_project h hget
  obtain ⟨text, htext, rfl⟩ := Option.map_eq_some_iff.mp hprojected
  cases hsection : record.isSecret || record.value.unwrap.2 with
  | true => exact Or.inl (get?_redact_of_secret hrecord hsection)
  | false =>
    have hlayers : p.unwrap.2 = true := by
      rw [← hsecret, hsection, Bool.false_or]
    refine Or.inr ⟨_, get?_redact_of_mapping hrecord hcore hsection, ?_⟩
    rw [Members.get?_mapValues, hp, Option.map_some, Property.redact_eq_of_unwrap, hlayers]
    rfl

theorem project_texts {properties : NamedProperties} (h : properties.WellFormed) {key : String}
    {members : Members Json}
    (hmembers : Members.get? key properties.resolve = some (.object members)) (name : String) :
    (Members.get? name (properties.project key)).map Projected.text =
      (Members.get? name members).bind Json.scalarText? := by
  rw [get?_resolve] at hmembers
  obtain ⟨record, hrecord, hresolve⟩ := Option.map_eq_some_iff.mp hmembers
  rw [Property.resolve_eq_of_unwrap] at hresolve
  obtain ⟨entries, hcore, rfl⟩ :=
    Property.resolve_eq_object (Property.isEnvelope_unwrap record.value) hresolve
  rw [project_eq_of_mapping hrecord hcore, (h.sorted_entries hrecord hcore).get?_chosen,
    Members.get?_mapValues]
  cases Members.get? name entries with
  | none => rfl
  | some p =>
    rw [Option.bind_some, Option.map_some, Option.bind_some]
    unfold projected?
    rw [Option.map_map]
    exact Option.map_id'

theorem project_empty {properties : NamedProperties} {key : String}
    (h : ∀ members, Members.get? key properties.resolve ≠ some (.object members)) :
    properties.project key = [] := by
  apply project_eq_nil
  intro record hrecord entries hcore
  exact h _ (get?_resolve_of_mapping hrecord hcore)

/-- Both projections agree with the resolved and the redacted environment. -/
theorem projections_agree {properties : NamedProperties} (h : properties.WellFormed) :
    properties.Agrees variablesKey properties.environment ∧
      properties.Agrees filesKey properties.files := by
  have hproject (key : String) : properties.Agrees key (properties.project key) :=
    { sorted := project_sorted h key
      empty := project_empty
      texts := fun _ hmembers => project_texts h hmembers
      shown := fun _ _ hget => project_shown h hget
      hidden := fun _ _ hget => project_hidden h hget }
  exact ⟨hproject variablesKey, hproject filesKey⟩

theorem projections_agree_stacked :
    let properties : NamedProperties := [
      ("environmentVariables", .ofValue (.envelope (.mapping [
        ("LIST", .sequence []), ("NONE", .envelope .null []),
        ("TOKEN", .wrap (.envelope (.string "t0k3n") [("secret", .bool true)]))]) [])),
      ("files", .mk (.mapping [("CERT", .bool true)]) (some true) none none)]
    properties.WellFormed ∧
      properties.environment = [("NONE", ⟨"", false⟩), ("TOKEN", ⟨"t0k3n", true⟩)] ∧
      properties.files = [("CERT", ⟨"true", true⟩)] ∧
      properties.Agrees variablesKey properties.environment ∧
      properties.Agrees filesKey properties.files := by
  intro properties
  have hproperties : properties.WellFormed := ⟨by decide, by decide⟩
  exact ⟨hproperties, by decide, by decide, projections_agree hproperties⟩

end NamedProperties
end EnvClient
