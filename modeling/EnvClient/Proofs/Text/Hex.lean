import EnvClient.Text.Hex
import Mathlib.Algebra.Group.Nat.Defs

/-! Hexadecimal digits of a number in a fixed number of places, and the number that they give
when they are read. -/
namespace EnvClient.Text

def places : (width : Nat) → Nat → List Nat
  | 0, _ => []
  | width + 1, n => places width (n / 16) ++ [n % 16]

def upperDigit (d : Nat) : Char := d.digitChar.toUpper

def digitsFrom (value : Nat) (ds : List Nat) : Nat := ds.foldl (fun v d => 16 * v + d) value

theorem hexValue?_upperDigit {d : Nat} (h : d < 16) : hexValue? (upperDigit d) = some d := by
  have hall : ∀ d : Fin 16, hexValue? (upperDigit d) = some d.val := by decide
  exact hall ⟨d, h⟩

theorem length_places (width n : Nat) : (places width n).length = width := by
  induction width generalizing n with
  | zero => rfl
  | succ width ih => rw [places, List.length_append, ih, List.length_singleton]

theorem lt_of_mem_places {width n d : Nat} (h : d ∈ places width n) : d < 16 := by
  induction width generalizing n with
  | zero => cases h
  | succ width ih =>
    rw [places, List.mem_append, List.mem_singleton] at h
    cases h with
    | inl h => exact ih h
    | inr h => omega

theorem digitsFrom_places {width n : Nat} (h : n < 16 ^ width) :
    digitsFrom 0 (places width n) = n := by
  induction width generalizing n with
  | zero =>
    have : n = 0 := by simpa using h
    rw [this]
    rfl
  | succ width ih =>
    have hdiv : n / 16 < 16 ^ width := Nat.div_lt_of_lt_mul (by rw [Nat.mul_comm]; exact h)
    unfold digitsFrom at ih ⊢
    rw [places, List.foldl_append, ih hdiv, List.foldl_cons, List.foldl_nil]
    omega

theorem map_places_zero (width : Nat) :
    (places width 0).map upperDigit = List.replicate width '0' := by
  induction width with
  | zero => rfl
  | succ width ih => rw [places, List.map_append, Nat.zero_div, ih, List.replicate_succ']; rfl

theorem upperHex_eq_places {width n : Nat} (hwidth : 0 < width) (h : n < 16 ^ width) :
    upperHex width n = (places width n).map upperDigit := by
  induction width generalizing n with
  | zero => cases hwidth
  | succ width ih =>
    unfold upperHex at ih ⊢
    rw [places, List.map_append]
    by_cases hlt : n < 16
    · rw [Nat.toDigits_of_lt_base hlt, Nat.div_eq_of_lt hlt, Nat.mod_eq_of_lt hlt, map_places_zero]
      rfl
    · have hdiv : n / 16 < 16 ^ width := Nat.div_lt_of_lt_mul (by rw [Nat.mul_comm]; exact h)
      have hpos : 0 < width := by
        cases width with
        | zero => exact absurd h hlt
        | succ width => exact Nat.succ_pos width
      rw [Nat.toDigits_of_base_le (by decide) (Nat.le_of_not_lt hlt), ← ih hpos hdiv,
        List.map_append]
      simp only [List.map_cons, List.map_nil, List.length_append, List.length_singleton,
        Nat.add_sub_add_right, List.append_assoc]
      rfl

end EnvClient.Text
