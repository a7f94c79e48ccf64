import EnvClient.Model.Record
import EnvClient.Proofs.Property.Basic

/-! Trees whose mappings and metadata are finite maps. Every tree that is read is one, and so
is every value that a tree is turned into. -/
namespace EnvClient

namespace Property

mutual
def WellFormed : Property → Prop
  | sequence items => WellFormedItems items
  | mapping entries => Members.Sorted entries ∧ WellFormedEntries entries
  | envelope payload metadata => payload.WellFormed ∧ (Json.object metadata).Sorted
  | _ => True
def WellFormedItems : List Property → Prop
  | [] => True
  | item :: rest => item.WellFormed ∧ WellFormedItems rest
def WellFormedEntries : List (String × Property) → Prop
  | [] => True
  | (_, value) :: rest => value.WellFormed ∧ WellFormedEntries rest
end

mutual
def decWellFormed : (p : Property) → Decidable p.WellFormed
  | sequence items => decWellFormedItems items
  | mapping entries =>
    have := decWellFormedEntries entries
    inferInstanceAs (Decidable (Members.Sorted entries ∧ WellFormedEntries entries))
  | envelope payload metadata =>
    have := decWellFormed payload
    inferInstanceAs (Decidable (payload.WellFormed ∧ (Json.object metadata).Sorted))
  | null | bool _ | number _ | string _ => isTrue trivial
def decWellFormedItems : (items : List Property) → Decidable (WellFormedItems items)
  | [] => isTrue trivial
  | item :: rest =>
    have := decWellFormed item
    have := decWellFormedItems rest
    inferInstanceAs (Decidable (item.WellFormed ∧ WellFormedItems rest))
def decWellFormedEntries : (entries : List (String × Property)) →
    Decidable (WellFormedEntries entries)
  | [] => isTrue trivial
  | (_, value) :: rest =>
    have := decWellFormed value
    have := decWellFormedEntries rest
    inferInstanceAs (Decidable (value.WellFormed ∧ WellFormedEntries rest))
end

instance : DecidablePred WellFormed := decWellFormed

@[simp] theorem wellFormed_sequence {items : List Property} :
    (sequence items).WellFormed ↔ ∀ item ∈ items, item.WellFormed := by
  rw [WellFormed]
  induction items with
  | nil => simp [WellFormedItems]
  | cons item rest ih => simp [WellFormedItems, ih]

@[simp] theorem wellFormed_mapping {entries : List (String × Property)} :
    (mapping entries).WellFormed ↔
      Members.Sorted entries ∧ ∀ entry ∈ entries, entry.2.WellFormed := by
  rw [WellFormed]
  have hentries : WellFormedEntries entries ↔ ∀ entry ∈ entries, entry.2.WellFormed := by
    induction entries with
    | nil => simp [WellFormedEntries]
    | cons entry rest ih => simp [WellFormedEntries, ih]
  rw [hentries]

@[simp] theorem wellFormed_envelope {payload : Property} {metadata : Members Json} :
    (envelope payload metadata).WellFormed ↔
      payload.WellFormed ∧ (Json.object metadata).Sorted := by
  rw [WellFormed]

theorem ofJson_wellFormed {j : Json} (h : j.Sorted) : (ofJson j).WellFormed := by
  induction j with
  | null => trivial
  | bool value => trivial
  | number value => trivial
  | string value => trivial
  | array items ih =>
    rw [Json.sorted_array] at h
    rw [ofJson_array, wellFormed_sequence, List.forall_mem_map]
    exact fun item hmem => ih item hmem (h item hmem)
  | object members ih =>
    obtain ⟨hsorted, hvalues⟩ := Json.sorted_object.mp h
    rw [ofJson_object]
    cases hget : Members.get? valueKey members with
    | none =>
      simp only [wellFormed_mapping, Members.forall_mem_mapValues]
      exact ⟨hsorted.mapValues ofJson, fun entry hmem => ih entry hmem (hvalues entry hmem)⟩
    | some payload =>
      have hmem := Members.mem_of_get? hget
      simp only [wellFormed_envelope, Json.sorted_object]
      refine ⟨ih _ hmem (hvalues _ hmem), hsorted.erase valueKey, fun member hmember => ?_⟩
      exact hvalues member ((Members.erase_sublist valueKey members).subset hmember)

theorem toJson_sorted {p : Property} (h : p.WellFormed) : p.toJson.Sorted := by
  induction p with
  | null => trivial
  | bool value => trivial
  | number value => trivial
  | string value => trivial
  | sequence items ih =>
    rw [wellFormed_sequence] at h
    rw [toJson_sequence, Json.sorted_array, List.forall_mem_map]
    exact fun item hmem => ih item hmem (h item hmem)
  | mapping entries ih =>
    obtain ⟨hsorted, hvalues⟩ := wellFormed_mapping.mp h
    rw [toJson_mapping, Json.sorted_object, Members.forall_mem_mapValues]
    exact ⟨hsorted.mapValues toJson, fun entry hmem => ih entry hmem (hvalues entry hmem)⟩
  | envelope payload metadata ih =>
    obtain ⟨hpayload, hmetadata⟩ := wellFormed_envelope.mp h
    obtain ⟨hsorted, hvalues⟩ := Json.sorted_object.mp hmetadata
    rw [toJson, Json.sorted_object]
    exact ⟨hsorted.insert valueKey payload.toJson,
      Members.forall_mem_insert (ih hpayload) hvalues⟩

end Property

structure NamedProperties.WellFormed (properties : NamedProperties) : Prop where
  sorted : Members.Sorted properties
  values : ∀ entry ∈ properties, entry.2.value.WellFormed

end EnvClient
