import EnvClient.Property.Resolve
import EnvClient.Proofs.Json

/-! Induction over property trees. The walks over trees act on sequences item by item and on
maps value by value. -/
namespace EnvClient.Property

@[elab_as_elim, induction_eliminator]
theorem induction {motive : Property → Prop} (null : motive null)
    (bool : ∀ value, motive (bool value)) (number : ∀ value, motive (number value))
    (string : ∀ value, motive (string value))
    (sequence : ∀ items, (∀ item ∈ items, motive item) → motive (sequence items))
    (mapping : ∀ entries : List (String × Property), (∀ entry ∈ entries, motive entry.2) →
      motive (mapping entries))
    (envelope : ∀ payload metadata, motive payload → motive (envelope payload metadata))
    (p : Property) : motive p :=
  match p with
  | .null => null
  | .bool value => bool value
  | .number value => number value
  | .string value => string value
  | .sequence items => sequence items fun item hmem =>
      have := List.sizeOf_lt_of_mem hmem
      induction null bool number string sequence mapping envelope item
  | .mapping entries => mapping entries fun entry hmem =>
      have := List.sizeOf_lt_of_mem hmem
      induction null bool number string sequence mapping envelope entry.2
  | .envelope payload metadata => envelope payload metadata
      (induction null bool number string sequence mapping envelope payload)
termination_by sizeOf p
decreasing_by
  · simp only [Property.sequence.sizeOf_spec]
    omega
  · obtain ⟨name, value⟩ := entry
    simp only [Property.mapping.sizeOf_spec, Prod.mk.sizeOf_spec] at *
    omega
  · simp only [Property.envelope.sizeOf_spec]
    omega

theorem ofItems_eq_map (items : List Json) : ofItems items = items.map ofJson := by
  induction items with
  | nil => rfl
  | cons item rest ih => rw [ofItems, ih, List.map_cons]

theorem ofMembers_eq_mapValues (members : List (String × Json)) :
    ofMembers members = Members.mapValues ofJson members := by
  induction members with
  | nil => rfl
  | cons member rest ih =>
    rw [ofMembers, ih]
    rfl

theorem payload?_eq_map (members : List (String × Json)) :
    payload? members = (Members.get? valueKey members).map ofJson := by
  induction members with
  | nil => rfl
  | cons member rest ih =>
    rw [payload?, Members.get?]
    split
    · rfl
    · exact ih

theorem toItems_eq_map (items : List Property) : toItems items = items.map toJson := by
  induction items with
  | nil => rfl
  | cons item rest ih => rw [toItems, ih, List.map_cons]

theorem toMembers_eq_mapValues (entries : List (String × Property)) :
    toMembers entries = Members.mapValues toJson entries := by
  induction entries with
  | nil => rfl
  | cons entry rest ih =>
    rw [toMembers, ih]
    rfl

theorem plainItems_eq_map (redact : Bool) (items : List Property) :
    plainItems redact items = items.map (plain redact) := by
  induction items with
  | nil => rfl
  | cons item rest ih => rw [plainItems, ih, List.map_cons]

theorem plainEntries_eq_mapValues (redact : Bool) (entries : List (String × Property)) :
    plainEntries redact entries = Members.mapValues (plain redact) entries := by
  induction entries with
  | nil => rfl
  | cons entry rest ih =>
    rw [plainEntries, ih]
    rfl

theorem ofJson_array (items : List Json) :
    ofJson (.array items) = sequence (items.map ofJson) := by
  rw [ofJson, ofItems_eq_map]

theorem ofJson_object (members : List (String × Json)) :
    ofJson (.object members) = match Members.get? valueKey members with
      | some payload => envelope (ofJson payload) (Members.erase valueKey members)
      | none => mapping (Members.mapValues ofJson members) := by
  rw [ofJson, payload?_eq_map, ofMembers_eq_mapValues]
  cases Members.get? valueKey members with
  | none => rfl
  | some payload => rfl

theorem toJson_sequence (items : List Property) :
    (sequence items).toJson = .array (items.map toJson) := by
  rw [toJson, toItems_eq_map]

theorem toJson_mapping (entries : List (String × Property)) :
    (mapping entries).toJson = .object (Members.mapValues toJson entries) := by
  rw [toJson, toMembers_eq_mapValues]

theorem plain_sequence (redact : Bool) (items : List Property) :
    (sequence items).plain redact = .array (items.map (plain redact)) := by
  rw [plain, plainItems_eq_map]

theorem plain_mapping (redact : Bool) (entries : List (String × Property)) :
    (mapping entries).plain redact = .object (Members.mapValues (plain redact) entries) := by
  rw [plain, plainEntries_eq_mapValues]

end EnvClient.Property
