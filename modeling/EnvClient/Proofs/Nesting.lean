import EnvClient.Proofs.Json

/-! How deep values are nested. A reader that may go down a number of levels gives sorted values
of no more levels. -/
namespace EnvClient.Json

mutual
def nesting : Json → Nat
  | array items => nestingItems items + 1
  | object members => nestingMembers members + 1
  | _ => 0
def nestingItems : List Json → Nat
  | [] => 0
  | item :: rest => max item.nesting (nestingItems rest)
def nestingMembers : List (String × Json) → Nat
  | [] => 0
  | (_, value) :: rest => max value.nesting (nestingMembers rest)
end

theorem nestingItems_le_iff {items : List Json} {depth : Nat} :
    nestingItems items ≤ depth ↔ ∀ item ∈ items, item.nesting ≤ depth := by
  induction items with
  | nil => simp [nestingItems]
  | cons item rest ih => rw [nestingItems, Nat.max_le, ih, List.forall_mem_cons]

theorem nestingMembers_le_iff {members : List (String × Json)} {depth : Nat} :
    nestingMembers members ≤ depth ↔ ∀ member ∈ members, member.2.nesting ≤ depth := by
  induction members with
  | nil => simp [nestingMembers]
  | cons member rest ih => rw [nestingMembers, Nat.max_le, ih, List.forall_mem_cons]

@[simp] theorem nesting_array_le_succ {items : List Json} {depth : Nat} :
    (array items).nesting ≤ depth + 1 ↔ ∀ item ∈ items, item.nesting ≤ depth := by
  rw [nesting, Nat.add_le_add_iff_right, nestingItems_le_iff]

@[simp] theorem nesting_object_le_succ {members : List (String × Json)} {depth : Nat} :
    (object members).nesting ≤ depth + 1 ↔ ∀ member ∈ members, member.2.nesting ≤ depth := by
  rw [nesting, Nat.add_le_add_iff_right, nestingMembers_le_iff]

/-- A value that a reader may give which may go down so many levels. -/
structure Fits (depth : Nat) (j : Json) : Prop where
  sorted : j.Sorted
  nesting_le : j.nesting ≤ depth

theorem Fits.mono {j : Json} {depth depth' : Nat} (h : j.Fits depth) (hle : depth ≤ depth') :
    j.Fits depth' :=
  ⟨h.sorted, Nat.le_trans h.nesting_le hle⟩

theorem fits_array_succ {items : List Json} {depth : Nat} :
    (array items).Fits (depth + 1) ↔ ∀ item ∈ items, item.Fits depth := by
  constructor
  · intro h item hmem
    exact ⟨sorted_array.mp h.sorted item hmem, nesting_array_le_succ.mp h.nesting_le item hmem⟩
  · intro h
    exact ⟨sorted_array.mpr fun item hmem => (h item hmem).sorted,
      nesting_array_le_succ.mpr fun item hmem => (h item hmem).nesting_le⟩

theorem fits_object_succ {members : List (String × Json)} {depth : Nat} :
    (object members).Fits (depth + 1) ↔
      Members.Sorted members ∧ ∀ member ∈ members, member.2.Fits depth := by
  constructor
  · intro h
    obtain ⟨hnames, hvalues⟩ := sorted_object.mp h.sorted
    exact ⟨hnames, fun member hmem =>
      ⟨hvalues member hmem, nesting_object_le_succ.mp h.nesting_le member hmem⟩⟩
  · intro ⟨hnames, h⟩
    exact ⟨sorted_object.mpr ⟨hnames, fun member hmem => (h member hmem).sorted⟩,
      nesting_object_le_succ.mpr fun member hmem => (h member hmem).nesting_le⟩

theorem Fits.succ_of_array {items : List Json} {depth : Nat} (h : (array items).Fits depth) :
    ∃ below, depth = below + 1 := by
  cases depth with
  | zero => exact absurd h.nesting_le (Nat.not_succ_le_zero _)
  | succ below => exact ⟨below, rfl⟩

theorem Fits.succ_of_object {members : List (String × Json)} {depth : Nat}
    (h : (object members).Fits depth) : ∃ below, depth = below + 1 := by
  cases depth with
  | zero => exact absurd h.nesting_le (Nat.not_succ_le_zero _)
  | succ below => exact ⟨below, rfl⟩

theorem fits_null (depth : Nat) : null.Fits depth := ⟨trivial, Nat.zero_le _⟩

theorem fits_bool (depth : Nat) (value : Bool) : (bool value).Fits depth :=
  ⟨trivial, Nat.zero_le _⟩

theorem fits_number (depth : Nat) (n : Number) : (number n).Fits depth := ⟨trivial, Nat.zero_le _⟩

theorem fits_string (depth : Nat) (s : String) : (string s).Fits depth := ⟨trivial, Nat.zero_le _⟩

theorem Fits.insert {m : Members Json} {depth : Nat} (h : (object m).Fits (depth + 1))
    {value : Json} (hvalue : value.Fits depth) (name : String) :
    (object (Members.insert name value m)).Fits (depth + 1) := by
  obtain ⟨hsorted, hvalues⟩ := fits_object_succ.mp h
  exact fits_object_succ.mpr
    ⟨hsorted.insert name value, Members.forall_mem_insert hvalue hvalues⟩

theorem fits_empty (depth : Nat) : (object []).Fits (depth + 1) :=
  fits_object_succ.mpr ⟨Members.sorted_nil, nofun⟩

end EnvClient.Json
