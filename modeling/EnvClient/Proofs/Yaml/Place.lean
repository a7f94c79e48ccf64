import EnvClient.Yaml.Printer
import EnvClient.Yaml.Token.Scalar

/-! Places in a text that is put together of parts, and what a text starts with. -/
namespace EnvClient.Yaml

theorem ne_of_isPrintable {c d : Char} (h : isPrintable c = true) (hd : isPrintable d = false) :
    c ≠ d := by
  rintro rfl
  rw [hd] at h
  cases h

def startsWord (c : Char) : Bool := !isSpaceOrBreak c && c != '#' && c != '\ufeff'

theorem startsWord_iff {c : Char} :
    startsWord c = true ↔ isBlank c = false ∧ isBreak c = false ∧ c ≠ '#' ∧ c ≠ '\ufeff' := by
  simp [startsWord, isSpaceOrBreak, and_assoc]

def Starts (u : List Char) : Prop := ∀ c ∈ u.head?, startsWord c = true

theorem starts_nil : Starts [] := nofun

theorem starts_cons {c : Char} {u : List Char} : Starts (c :: u) ↔ startsWord c = true := by
  simp [Starts]

def byteCount : List Char → Nat
  | [] => 0
  | c :: s => c.utf8Size + byteCount s

@[simp] theorem byteCount_nil : byteCount [] = 0 := rfl

@[simp] theorem byteCount_cons (c : Char) (s : List Char) :
    byteCount (c :: s) = c.utf8Size + byteCount s := rfl

@[simp] theorem byteCount_append (s t : List Char) :
    byteCount (s ++ t) = byteCount s + byteCount t := by
  induction s with
  | nil => exact (Nat.zero_add _).symm
  | cons c s ih => rw [List.cons_append, byteCount, byteCount, ih, Nat.add_assoc]

namespace Place

def past (p : Place) (s : List Char) : Place := s.foldl after p

@[simp] theorem past_nil (p : Place) : p.past [] = p := rfl

@[simp] theorem past_cons (p : Place) (c : Char) (s : List Char) :
    p.past (c :: s) = (p.after c).past s := rfl

theorem past_append (p : Place) (s t : List Char) : p.past (s ++ t) = (p.past s).past t :=
  List.foldl_append

theorem after_of_isBreak {c : Char} (h : isBreak c = true) (p : Place) :
    p.after c = ⟨p.offset + c.utf8Size, p.line + 1, 0⟩ := by
  rw [after, if_pos h]

theorem after_of_not_isBreak {c : Char} (h : isBreak c = false) (p : Place) :
    p.after c = ⟨p.offset + c.utf8Size, p.line, p.column + 1⟩ := by
  rw [after, h, if_neg Bool.false_ne_true]

theorem column_after_ne_zero {c : Char} (h : isBreak c = false) (p : Place) :
    (p.after c).column ≠ 0 := by
  rw [after_of_not_isBreak h]
  exact Nat.succ_ne_zero _

theorem past_of_not_isBreak {s : List Char} (h : ∀ c ∈ s, isBreak c = false) (p : Place) :
    p.past s = ⟨p.offset + byteCount s, p.line, p.column + s.length⟩ := by
  induction s generalizing p with
  | nil => rfl
  | cons c s ih =>
    obtain ⟨hc, hs⟩ := List.forall_mem_cons.mp h
    rw [past_cons, after_of_not_isBreak hc, ih hs, byteCount, List.length_cons]
    simp only [Place.mk.injEq, true_and]
    omega

theorem line_le_after (p : Place) (c : Char) : p.line ≤ (p.after c).line := by
  unfold after
  split
  · exact Nat.le_succ _
  · exact Nat.le_refl _

theorem line_le_past (p : Place) (s : List Char) : p.line ≤ (p.past s).line := by
  induction s generalizing p with
  | nil => exact Nat.le_refl _
  | cons c s ih => exact Nat.le_trans (p.line_le_after c) (ih _)

theorem not_isBreak_of_mem_pad {indent : Nat} : ∀ c ∈ pad indent, isBreak c = false := by
  intro c hmem
  rw [(List.mem_replicate.mp hmem).2]
  decide

theorem column_past_pad (p : Place) (indent : Nat) :
    (p.past (pad indent)).column = p.column + indent := by
  rw [past_of_not_isBreak not_isBreak_of_mem_pad, pad, List.length_replicate]

theorem line_past_pad (p : Place) (indent : Nat) : (p.past (pad indent)).line = p.line := by
  rw [past_of_not_isBreak not_isBreak_of_mem_pad]

end Place

namespace Input

theorem ofChars_cons {c : Char} (h : c ≠ '\r') (p : Place) (s : List Char) :
    ofChars p (c :: s) = ⟨c, p⟩ :: ofChars (p.after c) s := by
  rw [ofChars, if_neg fun hand => h hand.1]

theorem ofChars_append {s : List Char} (h : '\r' ∉ s) (p : Place) (t : List Char) :
    ofChars p (s ++ t) = ofChars p s ++ ofChars (p.past s) t := by
  induction s generalizing p with
  | nil => rfl
  | cons c s ih =>
    obtain ⟨hc, hs⟩ := not_or.mp (mt List.mem_cons.mpr h)
    rw [List.cons_append, ofChars_cons (Ne.symm hc), ofChars_cons (Ne.symm hc), ih hs,
      List.cons_append, Place.past_cons]

theorem length_ofChars_le (p : Place) (s : List Char) : (ofChars p s).length ≤ s.length := by
  induction s generalizing p with
  | nil => exact Nat.le_refl _
  | cons c s ih =>
    rw [ofChars]
    split
    · exact Nat.le_succ_of_le (ih _)
    · exact Nat.succ_le_succ (ih _)

theorem atGap_ofChars (p : Place) (s : List Char) : (ofChars p s).atGap = startsBlank s := by
  cases s with
  | nil => rfl
  | cons c s =>
    by_cases hc : c = '\r' ∧ s.head? = some '\n'
    · obtain ⟨hreturn, hfeed⟩ := hc
      cases s with
      | nil => cases hfeed
      | cons d s =>
        cases hfeed
        cases hreturn
        rw [ofChars, if_pos ⟨rfl, rfl⟩, ofChars_cons (by decide)]
        rfl
    · rw [ofChars, if_neg hc]
      rfl

theorem startsDocumentMark_of_column {c : Placed} (h : c.place.column ≠ 0) (rest : Input) :
    startsDocumentMark (c :: rest) = false := by
  have hmark : ∀ d, startsMark d (c :: rest) = false := by
    intro d
    rcases rest with _ | ⟨a, _ | ⟨b, rest⟩⟩
    · rfl
    · rfl
    · simp [startsMark, h]
  rw [startsDocumentMark, hmark, hmark, Bool.or_self]

end Input

theorem mem_pad {indent : Nat} {c : Char} (h : c ∈ pad indent) : c = ' ' :=
  (List.mem_replicate.mp h).2

theorem pad_succ (indent : Nat) : pad (indent + 1) = ' ' :: pad indent := List.replicate_succ

end EnvClient.Yaml
