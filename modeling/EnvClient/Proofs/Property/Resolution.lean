import EnvClient.Proofs.Property.Basic

/-! Documents with envelopes around their nodes, any number of them around each. Resolving takes
every one of them off and leaves none, so what it gives is a normal form. -/
namespace EnvClient.Json

/-- No object, at any depth, has the member that makes an object an envelope. -/
def EnvelopeFree (j : Json) : Prop :=
  ∀ members, NodeOf (object members) j → Property.valueKey ∉ Members.names members

/-- The second value is the first with envelopes around its nodes. Each layer is an object whose
member `value` is what it was put around; of its other members nothing is asked. -/
inductive Wraps : Json → Json → Prop where
  | null : Wraps null null
  | bool (value : Bool) : Wraps (bool value) (bool value)
  | number (value : Number) : Wraps (number value) (number value)
  | string (value : String) : Wraps (string value) (string value)
  | array {plain wrapped : List Json} (length : plain.length = wrapped.length)
      (items : ∀ (i : Nat) (p q : Json), plain[i]? = some p → wrapped[i]? = some q → Wraps p q) :
      Wraps (array plain) (array wrapped)
  | object {plain wrapped : Members Json} (names : Members.names plain = Members.names wrapped)
      (values : ∀ (i : Nat) (p q : String × Json), plain[i]? = some p → wrapped[i]? = some q →
        Wraps p.2 q.2) :
      Wraps (object plain) (object wrapped)
  | layer {document inner : Json} {members : Members Json}
      (payload : Members.get? Property.valueKey members = some inner)
      (below : Wraps document inner) : Wraps document (object members)

theorem envelopeFree_null : EnvelopeFree null := by simp [EnvelopeFree]

theorem envelopeFree_bool (value : Bool) : EnvelopeFree (bool value) := by simp [EnvelopeFree]

theorem envelopeFree_number (value : Number) : EnvelopeFree (number value) := by
  simp [EnvelopeFree]

theorem envelopeFree_string (value : String) : EnvelopeFree (string value) := by
  simp [EnvelopeFree]

theorem envelopeFree_array {items : List Json} :
    EnvelopeFree (array items) ↔ ∀ item ∈ items, EnvelopeFree item := by
  constructor
  · exact fun h item hmem members hnode => h members (.item hmem hnode)
  · intro h members hnode
    cases hnode with
    | item hmem hbelow => exact h _ hmem members hbelow

theorem envelopeFree_object {members : Members Json} :
    EnvelopeFree (object members) ↔
      Property.valueKey ∉ Members.names members ∧ ∀ member ∈ members, EnvelopeFree member.2 := by
  constructor
  · exact fun h => ⟨h _ .root, fun member hmem below hnode => h below (.member hmem hnode)⟩
  · intro h below hnode
    cases hnode with
    | root => exact h.1
    | member hmem hbelow => exact h.2 _ hmem below hbelow

theorem resolve_array (items : List Json) : (array items).resolve = array (items.map resolve) := by
  unfold resolve Property.resolve
  rw [Property.ofJson_array, Property.plain_sequence, List.map_map]
  rfl

theorem resolve_of_payload {members : Members Json} {payload : Json}
    (h : Members.get? Property.valueKey members = some payload) :
    (object members).resolve = payload.resolve := by
  unfold resolve Property.resolve
  rw [Property.ofJson_object, h]
  rfl

theorem resolve_of_no_payload {members : Members Json}
    (h : Property.valueKey ∉ Members.names members) :
    (object members).resolve = object (Members.mapValues resolve members) := by
  unfold resolve Property.resolve
  rw [Property.ofJson_object, Members.get?_eq_none_iff.mpr h]
  change (Property.mapping _).plain false = _
  rw [Property.plain_mapping, Members.mapValues_mapValues]

theorem Wraps.refl (j : Json) : Wraps j j := by
  induction j with
  | null => exact .null
  | bool value => exact .bool value
  | number value => exact .number value
  | string value => exact .string value
  | array items ih =>
    refine .array rfl fun i p q hp hq => ?_
    rw [hp, Option.some.injEq] at hq
    exact hq ▸ ih p (List.mem_of_getElem? hp)
  | object members ih =>
    refine .object rfl fun i p q hp hq => ?_
    rw [hp, Option.some.injEq] at hq
    exact hq ▸ ih p (List.mem_of_getElem? hp)

theorem Wraps.wrap {document inner : Json} (h : Wraps document inner) (metadata : Members Json) :
    Wraps document (Json.object (Members.insert Property.valueKey inner metadata)) := by
  refine .layer ?_ h
  rw [Members.get?_insert, if_pos rfl]

theorem Wraps.resolve_eq {document wrapped : Json} (h : Wraps document wrapped)
    (hfree : document.EnvelopeFree) : wrapped.resolve = document := by
  induction h with
  | null => rfl
  | bool value => rfl
  | number value => rfl
  | string value => rfl
  | @array plain wrapped length items ih =>
    rw [envelopeFree_array] at hfree
    rw [resolve_array]
    congr 1
    apply List.ext_getElem (by simp [length])
    intro i hwrapped hplain
    rw [List.length_map] at hwrapped
    rw [List.getElem_map]
    exact ih i _ _ (List.getElem?_eq_getElem hplain) (List.getElem?_eq_getElem hwrapped)
      (hfree _ (List.getElem_mem hplain))
  | @object plain wrapped names values ih =>
    obtain ⟨hkey, hvalues⟩ := envelopeFree_object.mp hfree
    rw [names] at hkey
    rw [resolve_of_no_payload hkey]
    congr 1
    unfold Members.names at names
    unfold Members.mapValues
    apply List.ext_getElem (by simpa using (congrArg List.length names).symm)
    intro i hwrapped hplain
    rw [List.length_map] at hwrapped
    have hname : plain[i].1 = wrapped[i].1 := by
      have := List.getElem_of_eq names (by simpa using hplain)
      rwa [List.getElem_map, List.getElem_map] at this
    have hvalue : wrapped[i].2.resolve = plain[i].2 :=
      ih i _ _ (List.getElem?_eq_getElem hplain) (List.getElem?_eq_getElem hwrapped)
        (hvalues _ (List.getElem_mem hplain))
    rw [List.getElem_map, hvalue, ← hname]
  | layer payload below ih =>
    rw [resolve_of_payload payload]
    exact ih hfree

/-- Every value is its own plain form with layers put around the nodes. -/
theorem wraps_resolve (j : Json) : Wraps j.resolve j := by
  induction j with
  | null => exact .null
  | bool value => exact .bool value
  | number value => exact .number value
  | string value => exact .string value
  | array items ih =>
    rw [resolve_array]
    refine .array (List.length_map _) fun i p q hp hq => ?_
    rw [List.getElem?_map, hq, Option.map_some, Option.some.injEq] at hp
    exact hp ▸ ih q (List.mem_of_getElem? hq)
  | object members ih =>
    by_cases hkey : Property.valueKey ∈ Members.names members
    · obtain ⟨payload, hpayload⟩ := Members.mem_names_iff.mp hkey
      rw [resolve_of_payload hpayload]
      exact .layer hpayload (ih _ (Members.mem_of_get? hpayload))
    · rw [resolve_of_no_payload hkey]
      refine .object (List.map_map ..) fun i p q hp hq => ?_
      unfold Members.mapValues at hp
      rw [List.getElem?_map, hq, Option.map_some, Option.some.injEq] at hp
      exact hp ▸ ih q (List.mem_of_getElem? hq)

theorem envelopeFree_plain_ofJson (redact : Bool) (j : Json) :
    ((Property.ofJson j).plain redact).EnvelopeFree := by
  induction j with
  | null => exact envelopeFree_null
  | bool value => exact envelopeFree_bool value
  | number value => exact envelopeFree_number value
  | string value => exact envelopeFree_string value
  | array items ih =>
    rw [Property.ofJson_array, Property.plain_sequence, envelopeFree_array, List.forall_mem_map,
      List.forall_mem_map]
    exact ih
  | object members ih =>
    rw [Property.ofJson_object]
    cases hpayload : Members.get? Property.valueKey members with
    | none =>
      rw [Members.get?_eq_none_iff] at hpayload
      change ((Property.mapping _).plain redact).EnvelopeFree
      rw [Property.plain_mapping, Members.mapValues_mapValues, envelopeFree_object,
        Members.forall_mem_mapValues]
      rw [Members.names_mapValues]
      exact ⟨hpayload, ih⟩
    | some payload =>
      change ((Property.envelope _ _).plain redact).EnvelopeFree
      rw [Property.plain]
      split
      · exact envelopeFree_string _
      · exact ih _ (Members.mem_of_get? hpayload)

theorem envelopeFree_resolve (j : Json) : j.resolve.EnvelopeFree :=
  envelopeFree_plain_ofJson false j

theorem resolve_eq_self {j : Json} (h : j.EnvelopeFree) : j.resolve = j :=
  (Wraps.refl j).resolve_eq h

/-- Resolving inverts every way of wrapping a plain document and gives nothing else: a value
resolves to the one document without envelopes that it wraps. Neither what it resolves to nor
what it is redacted to has envelopes, and resolving changes nothing exactly if there are none. -/
theorem resolve_normalForm :
    (∀ document : Json, document.EnvelopeFree → ∀ wrapped : Json,
      Wraps document wrapped ↔ wrapped.resolve = document) ∧
    (∀ j : Json, j.resolve.EnvelopeFree ∧ (Property.ofJson j).redact.EnvelopeFree) ∧
    (∀ j : Json, j.resolve.resolve = j.resolve) ∧
    (∀ j : Json, j.resolve = j ↔ j.EnvelopeFree) := by
  refine ⟨fun document hfree wrapped => ⟨fun h => h.resolve_eq hfree, ?_⟩, fun j => ⟨?_, ?_⟩,
    fun j => resolve_eq_self (envelopeFree_resolve j), fun j => ⟨?_, resolve_eq_self⟩⟩
  · intro h
    rw [← h]
    exact wraps_resolve wrapped
  · exact envelopeFree_resolve j
  · exact envelopeFree_plain_ofJson true j
  · intro h
    rw [← h]
    exact envelopeFree_resolve j

/-- Two layers around the whole and one around an item, with metadata that looks like an envelope
and a flag that is no boolean. -/
theorem resolve_normalForm_stacked :
    let document : Json := .object [("users", .array [.string "root", .null])]
    let metadata : Members Json := [("secret", .string "no"), ("trace", .object [("value", .null)])]
    let root : Json := .object (metadata ++ [("value", .string "root")])
    let wrapped : Json := .object [("secret", .bool false),
      ("value", .object [("value", .object [("users", .array [root, .null])])])]
    document.EnvelopeFree ∧ Wraps document wrapped ∧ wrapped.resolve = document ∧
      wrapped.resolve.resolve = document := by
  intro document metadata root wrapped
  obtain ⟨hinverse, -, hidempotent, hfixed⟩ := resolve_normalForm
  have hfree : document.EnvelopeFree := (hfixed document).mp rfl
  have hroot : Wraps (.string "root") root := (Wraps.string "root").wrap metadata
  have husers : Wraps (.array [.string "root", .null]) (.array [root, .null]) := by
    refine .array rfl fun i p q hp hq => ?_
    match i with
    | 0 =>
      cases hp
      cases hq
      exact hroot
    | 1 =>
      cases hp
      cases hq
      exact .null
  have hdocument : Wraps document (.object [("users", .array [root, .null])]) := by
    refine .object rfl fun i p q hp hq => ?_
    match i with
    | 0 =>
      cases hp
      cases hq
      exact husers
  have hwraps : Wraps document wrapped := .layer rfl (.layer rfl hdocument)
  have hresolve := (hinverse document hfree wrapped).mp hwraps
  exact ⟨hfree, hwraps, hresolve, (hidempotent wrapped).trans hresolve⟩

end EnvClient.Json
