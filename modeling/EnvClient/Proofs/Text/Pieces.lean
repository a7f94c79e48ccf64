/-! Pieces of a text between the places of a character. -/
namespace EnvClient.Text

def splitAt (c : Char) : List Char → List (List Char)
  | [] => [[]]
  | d :: rest =>
    if d = c then [] :: splitAt c rest
    else match splitAt c rest with
      | piece :: pieces => (d :: piece) :: pieces
      | [] => [[d]]

theorem splitAt_ne_nil (c : Char) (s : List Char) : splitAt c s ≠ [] := by
  fun_cases splitAt c s <;> simp_all

theorem splitAt_append {c : Char} {piece : List Char} (h : c ∉ piece) (rest : List Char) :
    splitAt c (piece ++ rest) = match splitAt c rest with
      | next :: pieces => (piece ++ next) :: pieces
      | [] => [piece] := by
  induction piece with
  | nil =>
    cases hrest : splitAt c rest with
    | nil => exact absurd hrest (splitAt_ne_nil c rest)
    | cons next pieces => rw [List.nil_append, hrest]; rfl
  | cons d piece ih =>
    obtain ⟨hd, hpiece⟩ := not_or.mp (mt List.mem_cons.mpr h)
    rw [List.cons_append, splitAt, if_neg (Ne.symm hd), ih hpiece]
    cases hrest : splitAt c rest with
    | nil => exact absurd hrest (splitAt_ne_nil c rest)
    | cons next pieces => rfl

theorem splitAt_of_not_mem {c : Char} {piece : List Char} (h : c ∉ piece) :
    splitAt c piece = [piece] := by
  simpa [splitAt] using splitAt_append h []

theorem splitAt_append_cons (c : Char) (s rest : List Char) :
    splitAt c (s ++ c :: rest) = splitAt c s ++ splitAt c rest := by
  induction s with
  | nil => simp [splitAt]
  | cons d s ih =>
    rw [List.cons_append, splitAt, splitAt, ih]
    split
    · rfl
    · cases hs : splitAt c s with
      | nil => exact absurd hs (splitAt_ne_nil c s)
      | cons piece pieces => rfl

theorem not_mem_of_mem_splitAt {c : Char} {s piece : List Char} (h : piece ∈ splitAt c s) :
    c ∉ piece := by
  induction s generalizing piece with
  | nil =>
    rw [List.mem_singleton.mp h]
    exact List.not_mem_nil
  | cons d rest ih =>
    rw [splitAt] at h
    split at h
    · cases List.mem_cons.mp h with
      | inl heq =>
        rw [heq]
        exact List.not_mem_nil
      | inr hmem => exact ih hmem
    · rename_i hne
      cases hrest : splitAt c rest with
      | nil => exact absurd hrest (splitAt_ne_nil c rest)
      | cons first pieces =>
        rw [hrest] at h ih
        cases List.mem_cons.mp h with
        | inl heq =>
          rw [heq]
          exact mt List.mem_cons.mp (not_or.mpr ⟨Ne.symm hne, ih List.mem_cons_self⟩)
        | inr hmem => exact ih (List.mem_cons_of_mem _ hmem)

theorem length_splitAt_eq_one_iff {c : Char} {s : List Char} :
    (splitAt c s).length = 1 ↔ c ∉ s := by
  constructor
  · intro h hmem
    obtain ⟨before, after, rfl⟩ := List.append_of_mem hmem
    rw [splitAt_append_cons, List.length_append] at h
    have hbefore := List.length_pos_iff.mpr (splitAt_ne_nil c before)
    have hafter := List.length_pos_iff.mpr (splitAt_ne_nil c after)
    omega
  · intro h
    rw [splitAt_of_not_mem h]
    rfl

theorem mapM_map_of_reads {α β : Type} {write : α → β} {read? : β → Option α} {values : List α}
    (h : ∀ value ∈ values, read? (write value) = some value) :
    (values.map write).mapM read? = some values := by
  induction values with
  | nil => rfl
  | cons value rest ih =>
    obtain ⟨hvalue, hrest⟩ := List.forall_mem_cons.mp h
    rw [List.map_cons, List.mapM_cons, hvalue, ih hrest]
    rfl

/-- The lines of a text, if each of them is ended. -/
def lines? (s : String) : Option (List String) :=
  let pieces := splitAt '\n' s.toList
  if pieces.getLast? = some [] then some (pieces.dropLast.map String.ofList) else none

theorem splitAt_flatMap_ended (c : Char) (pieces : List (List Char)) :
    splitAt c (pieces.flatMap fun piece => piece ++ [c]) = pieces.flatMap (splitAt c) ++ [[]] := by
  induction pieces with
  | nil => rfl
  | cons piece rest ih =>
    rw [List.flatMap_cons, List.append_assoc, List.singleton_append, splitAt_append_cons, ih,
      List.flatMap_cons, List.append_assoc]

theorem length_flatMap_splitAt_eq_iff {c : Char} {pieces : List (List Char)} :
    (pieces.flatMap (splitAt c)).length = pieces.length ↔ ∀ piece ∈ pieces, c ∉ piece := by
  have hle (pieces : List (List Char)) : pieces.length ≤ (pieces.flatMap (splitAt c)).length := by
    induction pieces with
    | nil => exact Nat.le_refl 0
    | cons piece rest ih =>
      have hpiece := List.length_pos_iff.mpr (splitAt_ne_nil c piece)
      rw [List.flatMap_cons, List.length_append, List.length_cons]
      omega
  induction pieces with
  | nil => simp
  | cons piece rest ih =>
    have hrest := hle rest
    have hpiece := List.length_pos_iff.mpr (splitAt_ne_nil c piece)
    rw [List.flatMap_cons, List.length_append, List.length_cons, List.forall_mem_cons]
    refine Iff.trans ?_ (and_congr length_splitAt_eq_one_iff ih)
    omega

theorem flatMap_splitAt_of_not_mem {c : Char} {pieces : List (List Char)}
    (h : ∀ piece ∈ pieces, c ∉ piece) : pieces.flatMap (splitAt c) = pieces := by
  induction pieces with
  | nil => rfl
  | cons piece rest ih =>
    obtain ⟨hpiece, hrest⟩ := List.forall_mem_cons.mp h
    rw [List.flatMap_cons, splitAt_of_not_mem hpiece, ih hrest, List.singleton_append]

theorem lines?_ended (pieces : List (List Char)) :
    lines? (String.ofList (pieces.flatMap fun piece => piece ++ ['\n'])) =
      some ((pieces.flatMap (splitAt '\n')).map String.ofList) := by
  rw [lines?, String.toList_ofList, splitAt_flatMap_ended]
  simp

end EnvClient.Text
