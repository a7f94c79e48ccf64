import EnvClient.Json.Basic
import EnvClient.Proofs.Members

/-! Induction over JSON values, the nodes of one, and what it means for one to be sorted. -/
namespace EnvClient.Json

@[elab_as_elim, induction_eliminator]
theorem induction {motive : Json → Prop} (null : motive null) (bool : ∀ value, motive (bool value))
    (number : ∀ value, motive (number value)) (string : ∀ value, motive (string value))
    (array : ∀ items, (∀ item ∈ items, motive item) → motive (array items))
    (object : ∀ members : List (String × Json), (∀ member ∈ members, motive member.2) →
      motive (object members))
    (j : Json) : motive j :=
  match j with
  | .null => null
  | .bool value => bool value
  | .number value => number value
  | .string value => string value
  | .array items => array items fun item hmem =>
      have := List.sizeOf_lt_of_mem hmem
      induction null bool number string array object item
  | .object members => object members fun member hmem =>
      have := List.sizeOf_lt_of_mem hmem
      induction null bool number string array object member.2
termination_by sizeOf j
decreasing_by
  · simp only [Json.array.sizeOf_spec]
    omega
  · obtain ⟨name, value⟩ := member
    simp only [Json.object.sizeOf_spec, Prod.mk.sizeOf_spec] at *
    omega

inductive NodeOf (node : Json) : Json → Prop where
  | root : NodeOf node node
  | item {items : List Json} {item : Json} (mem : item ∈ items) (below : NodeOf node item) :
      NodeOf node (array items)
  | member {members : List (String × Json)} {member : String × Json} (mem : member ∈ members)
      (below : NodeOf node member.2) : NodeOf node (object members)

section NodeOf

variable {node : Json}

@[simp] theorem nodeOf_null : NodeOf node null ↔ node = null :=
  ⟨fun h => by cases h; rfl, fun h => h ▸ .root⟩

@[simp] theorem nodeOf_bool {value : Bool} : NodeOf node (bool value) ↔ node = bool value :=
  ⟨fun h => by cases h; rfl, fun h => h ▸ .root⟩

@[simp] theorem nodeOf_number {value : Number} :
    NodeOf node (number value) ↔ node = number value :=
  ⟨fun h => by cases h; rfl, fun h => h ▸ .root⟩

@[simp] theorem nodeOf_string {value : String} :
    NodeOf node (string value) ↔ node = string value :=
  ⟨fun h => by cases h; rfl, fun h => h ▸ .root⟩

@[simp] theorem nodeOf_array {items : List Json} :
    NodeOf node (array items) ↔ node = array items ∨ ∃ item ∈ items, NodeOf node item := by
  constructor
  · intro h
    cases h with
    | root => exact .inl rfl
    | item mem below => exact .inr ⟨_, mem, below⟩
  · rintro (rfl | ⟨item, mem, below⟩)
    · exact .root
    · exact .item mem below

@[simp] theorem nodeOf_object {members : List (String × Json)} :
    NodeOf node (object members) ↔
      node = object members ∨ ∃ member ∈ members, NodeOf node member.2 := by
  constructor
  · intro h
    cases h with
    | root => exact .inl rfl
    | member mem below => exact .inr ⟨_, mem, below⟩
  · rintro (rfl | ⟨member, mem, below⟩)
    · exact .root
    · exact .member mem below

end NodeOf

theorem bool_ne_null (value : Bool) : bool value ≠ null := by simp

theorem string_ne_null (value : String) : string value ≠ null := by simp

theorem array_ne_null (items : List Json) : array items ≠ null := by simp

theorem object_ne_null (members : List (String × Json)) : object members ≠ null := by simp

theorem sortedItems_iff {items : List Json} : SortedItems items ↔ ∀ item ∈ items, item.Sorted := by
  induction items with
  | nil => simp [SortedItems]
  | cons item rest ih => simp [SortedItems, ih]

theorem sortedMembers_iff {members : List (String × Json)} :
    SortedMembers members ↔ ∀ member ∈ members, member.2.Sorted := by
  induction members with
  | nil => simp [SortedMembers]
  | cons member rest ih => simp [SortedMembers, ih]

@[simp] theorem sorted_array {items : List Json} :
    (array items).Sorted ↔ ∀ item ∈ items, item.Sorted := by
  rw [Sorted, sortedItems_iff]

@[simp] theorem sorted_object {members : List (String × Json)} :
    (object members).Sorted ↔ Members.Sorted members ∧ ∀ member ∈ members, member.2.Sorted := by
  rw [Sorted, sortedMembers_iff]

mutual
def decSorted : (j : Json) → Decidable j.Sorted
  | array items => decSortedItems items
  | object members =>
    have := decSortedMembers members
    inferInstanceAs (Decidable (Members.Sorted members ∧ SortedMembers members))
  | null | bool _ | number _ | string _ => isTrue trivial
def decSortedItems : (items : List Json) → Decidable (SortedItems items)
  | [] => isTrue trivial
  | item :: rest =>
    have := decSorted item
    have := decSortedItems rest
    inferInstanceAs (Decidable (item.Sorted ∧ SortedItems rest))
def decSortedMembers : (members : List (String × Json)) → Decidable (SortedMembers members)
  | [] => isTrue trivial
  | (_, value) :: rest =>
    have := decSorted value
    have := decSortedMembers rest
    inferInstanceAs (Decidable (value.Sorted ∧ SortedMembers rest))
end

instance : DecidablePred Json.Sorted := decSorted

end EnvClient.Json
