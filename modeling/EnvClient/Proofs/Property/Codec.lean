import EnvClient.Proofs.Property.WellFormed

/-! The JSON form of property trees. It loses nothing of a JSON value, and of a tree only which
objects were envelopes; that is known again unless a name in the tree takes the place of the
member that marks an envelope. -/
namespace EnvClient.Property

inductive NodeOf (node : Property) : Property → Prop where
  | root : NodeOf node node
  | item {items : List Property} {item : Property} (mem : item ∈ items) (below : NodeOf node item) :
      NodeOf node (sequence items)
  | entry {entries : List (String × Property)} {entry : String × Property} (mem : entry ∈ entries)
      (below : NodeOf node entry.2) : NodeOf node (mapping entries)
  | payload {payload : Property} {metadata : Members Json} (below : NodeOf node payload) :
      NodeOf node (envelope payload metadata)

def names : Property → List String
  | mapping entries => Members.names entries
  | envelope _ metadata => Members.names metadata
  | _ => []

/-- No mapping has an entry `value` and no envelope has metadata of that name. -/
def Canonical (p : Property) : Prop := ∀ node, NodeOf node p → valueKey ∉ node.names

theorem canonical_of_isScalar {p : Property} (h : p.isScalar = true) : Canonical p := by
  intro node hnode
  cases hnode with
  | root => cases p <;> simp_all [isScalar, names]
  | _ => cases h

theorem canonical_sequence {items : List Property} :
    Canonical (sequence items) ↔ ∀ item ∈ items, Canonical item := by
  constructor
  · exact fun h item hmem node hnode => h node (.item hmem hnode)
  · intro h node hnode
    cases hnode with
    | root => exact List.not_mem_nil
    | item hmem hbelow => exact h _ hmem node hbelow

theorem canonical_mapping {entries : List (String × Property)} :
    Canonical (mapping entries) ↔
      valueKey ∉ Members.names entries ∧ ∀ entry ∈ entries, Canonical entry.2 := by
  constructor
  · exact fun h => ⟨h _ .root, fun entry hmem node hnode => h node (.entry hmem hnode)⟩
  · intro h node hnode
    cases hnode with
    | root => exact h.1
    | entry hmem hbelow => exact h.2 _ hmem node hbelow

theorem canonical_envelope {payload : Property} {metadata : Members Json} :
    Canonical (envelope payload metadata) ↔
      valueKey ∉ Members.names metadata ∧ Canonical payload := by
  constructor
  · exact fun h => ⟨h _ .root, fun node hnode => h node (.payload hnode)⟩
  · intro h node hnode
    cases hnode with
    | root => exact h.1
    | payload hbelow => exact h.2 node hbelow

theorem toJson_ofJson {j : Json} (h : j.Sorted) : (ofJson j).toJson = j := by
  induction j with
  | null => rfl
  | bool value => rfl
  | number value => rfl
  | string value => rfl
  | array items ih =>
    rw [Json.sorted_array] at h
    rw [ofJson_array, toJson_sequence, List.map_map]
    congr 1
    refine Eq.trans (List.map_inj_left.mpr fun item hmem => ?_) (List.map_id items)
    exact ih item hmem (h item hmem)
  | object members ih =>
    obtain ⟨hsorted, hvalues⟩ := Json.sorted_object.mp h
    rw [ofJson_object]
    cases hget : Members.get? valueKey members with
    | none =>
      rw [toJson_mapping, Members.mapValues_mapValues]
      congr 1
      exact Members.mapValues_eq_self_iff.mpr fun entry hmem =>
        ih entry hmem (hvalues entry hmem)
    | some payload =>
      have hmem := Members.mem_of_get? hget
      have hpayload : (ofJson payload).toJson = payload := ih _ hmem (hvalues _ hmem)
      rw [toJson, hpayload, hsorted.insert_erase hget]

theorem ofJson_toJson_mapping {entries : List (String × Property)} :
    ofJson (mapping entries).toJson = mapping entries ↔
      valueKey ∉ Members.names entries ∧ ∀ entry ∈ entries, ofJson entry.2.toJson = entry.2 := by
  rw [toJson_mapping, ofJson_object, Members.get?_mapValues, Members.mapValues_mapValues,
    ← Members.get?_eq_none_iff]
  cases Members.get? valueKey entries with
  | none => simp [Members.mapValues_eq_self_iff]
  | some payload => simp

theorem ofJson_toJson_envelope {payload : Property} {metadata : Members Json}
    (h : Members.Sorted metadata) :
    ofJson (envelope payload metadata).toJson = envelope payload metadata ↔
      valueKey ∉ Members.names metadata ∧ ofJson payload.toJson = payload := by
  rw [toJson, ofJson_object, Members.get?_insert, if_pos rfl, h.erase_insert]
  simp only [envelope.injEq, h.erase_eq_self_iff]
  exact And.comm

theorem ofJson_toJson_iff {p : Property} (h : p.WellFormed) :
    ofJson p.toJson = p ↔ Canonical p := by
  induction p with
  | null => exact iff_of_true rfl (canonical_of_isScalar rfl)
  | bool value => exact iff_of_true rfl (canonical_of_isScalar rfl)
  | number value => exact iff_of_true rfl (canonical_of_isScalar rfl)
  | string value => exact iff_of_true rfl (canonical_of_isScalar rfl)
  | sequence items ih =>
    rw [wellFormed_sequence] at h
    have hitems : items.map (ofJson ∘ toJson) = items ↔
        ∀ item ∈ items, ofJson item.toJson = item := by
      have hmap := List.map_inj_left (l := items) (f := ofJson ∘ toJson) (g := id)
      rw [List.map_id] at hmap
      exact hmap
    rw [toJson_sequence, ofJson_array, List.map_map, sequence.injEq, hitems, canonical_sequence]
    exact forall_congr' fun item => forall_congr' fun hmem => ih item hmem (h item hmem)
  | mapping entries ih =>
    rw [ofJson_toJson_mapping, canonical_mapping]
    have hvalues := (wellFormed_mapping.mp h).2
    exact and_congr_right fun _ => forall_congr' fun entry => forall_congr' fun hmem =>
      ih entry hmem (hvalues entry hmem)
  | envelope payload metadata ih =>
    obtain ⟨hpayload, hmetadata⟩ := wellFormed_envelope.mp h
    rw [ofJson_toJson_envelope (Json.sorted_object.mp hmetadata).1, canonical_envelope,
      ih hpayload]

theorem canonical_ofJson {j : Json} (h : j.Sorted) : Canonical (ofJson j) := by
  rw [← ofJson_toJson_iff (ofJson_wellFormed h), toJson_ofJson h]

/-- Reading loses nothing of a JSON value; metadata is kept as it stands. A tree reads back from
its JSON form exactly if it is canonical, and these are the trees that reading gives. Reading
the JSON form of a tree once more changes nothing. -/
theorem jsonForm_exact :
    (∀ j : Json, j.Sorted → (ofJson j).toJson = j) ∧
    (∀ (members : Members Json) (payload : Json), Members.get? valueKey members = some payload →
      ofJson (.object members) = envelope (ofJson payload) (Members.erase valueKey members)) ∧
    (∀ p : Property, p.WellFormed → (ofJson p.toJson = p ↔ Canonical p)) ∧
    (∀ p : Property, p.WellFormed ∧ Canonical p ↔ ∃ j : Json, j.Sorted ∧ ofJson j = p) ∧
    (∀ p : Property, p.WellFormed → ofJson (ofJson p.toJson).toJson = ofJson p.toJson) := by
  refine ⟨fun j h => toJson_ofJson h, ?_, fun p h => ofJson_toJson_iff h, ?_, ?_⟩
  · intro members payload hget
    rw [ofJson_object, hget]
  · intro p
    constructor
    · intro h
      exact ⟨p.toJson, toJson_sorted h.1, (ofJson_toJson_iff h.1).mpr h.2⟩
    · rintro ⟨j, hsorted, rfl⟩
      exact ⟨ofJson_wellFormed hsorted, canonical_ofJson hsorted⟩
  · intro p h
    rw [toJson_ofJson (toJson_sorted h)]

/-- Metadata that looks like an envelope is kept, and a mapping with an entry `value` is not. -/
theorem jsonForm_exact_reserved :
    let metadata : Members Json := [("trace", .object [("value", .bool true)])]
    let j : Json := .object (metadata ++ [("value", .array [.object [("value", .null)]])])
    let p : Property := mapping [("value", sequence [envelope null metadata])]
    (j.Sorted ∧ (ofJson j).toJson = j) ∧
      ofJson j = envelope (sequence [envelope null []]) metadata ∧
      p.WellFormed ∧ ofJson p.toJson ≠ p ∧ ofJson (ofJson p.toJson).toJson = ofJson p.toJson := by
  intro metadata j p
  have hj : j.Sorted := by decide
  have hp : p.WellFormed := by decide
  obtain ⟨hread, hmetadata, hback, -, hagain⟩ := jsonForm_exact
  refine ⟨⟨hj, hread j hj⟩, ?_, hp, ?_, hagain p hp⟩
  · rw [hmetadata _ (.array [.object [("value", .null)]]) rfl]
    rfl
  · intro h
    exact (hback p hp).mp h p .root (List.mem_singleton.mpr rfl)

end EnvClient.Property
