import EnvClient.Proofs.Text.Utf8
import Mathlib.Algebra.Group.Nat.Defs

/-! Texts in the order of their bytes. UTF-8 gives a greater code point a greater sequence of
bytes, so names in order of character are in order of byte as well. -/
namespace EnvClient.Text.Utf8

private theorem ofNat_lt {m n : Nat} (h : m < n) (hn : n < 256) : UInt8.ofNat m < UInt8.ofNat n := by
  rwa [UInt8.lt_iff_toNat_lt, UInt8.toNat_ofNat_of_lt' (Nat.lt_trans h hn),
    UInt8.toNat_ofNat_of_lt' hn]

private def digits : (width n : Nat) → List UInt8
  | 0, _ => []
  | width + 1, n => UInt8.ofNat (n / 64 ^ width % 64 + 128) :: digits width n

private def width (n : Nat) : Nat :=
  if n ≤ 0x7F then 0 else if n ≤ 0x7FF then 1 else if n ≤ 0xFFFF then 2 else 3

private def mark : (width : Nat) → Nat
  | 0 => 0
  | 1 => 0xC0
  | 2 => 0xE0
  | _ => 0xF0

private theorem encodeChar_eq (c : Char) : String.utf8EncodeChar c =
    UInt8.ofNat (c.toNat / 64 ^ width c.toNat + mark (width c.toNat)) ::
      digits (width c.toNat) c.toNat := by
  have hvalid : c.toNat < 0xD800 ∨ 0xDFFF < c.toNat ∧ c.toNat < 0x110000 := c.valid
  have hval : c.val.toNat = c.toNat := rfl
  simp only [String.utf8EncodeChar, hval]
  generalize c.toNat = n at hvalid
  by_cases hone : n ≤ 0x7F
  · simp [width, hone, mark, digits]
  by_cases htwo : n ≤ 0x7FF
  · have hfirst : n / 64 % 32 = n / 64 := by omega
    simp [width, hone, htwo, mark, digits, hfirst]
  by_cases hthree : n ≤ 0xFFFF
  · have hfirst : n / 4096 % 16 = n / 4096 := by omega
    simp [width, hone, htwo, hthree, mark, digits, hfirst]
  · have hfirst : n / 262144 % 8 = n / 262144 := by omega
    simp [width, hone, htwo, hthree, mark, digits, hfirst]

private theorem digits_append_lt {m n : Nat} (h : m < n) (u v : List UInt8) {width : Nat}
    (heq : m / 64 ^ width = n / 64 ^ width) : digits width m ++ u < digits width n ++ v := by
  induction width with
  | zero =>
    rw [Nat.pow_zero, Nat.div_one, Nat.div_one] at heq
    exact absurd heq (Nat.ne_of_lt h)
  | succ width ih =>
    have hle : m / 64 ^ width ≤ n / 64 ^ width := Nat.div_le_div_right (Nat.le_of_lt h)
    rw [Nat.pow_succ, ← Nat.div_div_eq_div_mul, ← Nat.div_div_eq_div_mul] at heq
    rw [digits, digits, List.cons_append, List.cons_append, List.cons_lt_cons_iff]
    by_cases hdigit : m / 64 ^ width = n / 64 ^ width
    · rw [hdigit]
      exact .inr ⟨rfl, ih hdigit⟩
    · exact .inl (ofNat_lt (by omega) (by omega))

private theorem width_cases (n : Nat) :
    width n = 0 ∧ n ≤ 0x7F ∨ width n = 1 ∧ 0x7F < n ∧ n ≤ 0x7FF ∨
      width n = 2 ∧ 0x7FF < n ∧ n ≤ 0xFFFF ∨ width n = 3 ∧ 0xFFFF < n := by
  unfold width
  split
  · omega
  split
  · omega
  split <;> omega

private theorem first_lt {m n : Nat} (h : m < n) (hn : n < 0x110000) :
    n / 64 ^ width n + mark (width n) < 256 ∧ (width m = width n ∨
      m / 64 ^ width m + mark (width m) < n / 64 ^ width n + mark (width n)) := by
  constructor
  · rcases width_cases n with ⟨hw, _⟩ | ⟨hw, _⟩ | ⟨hw, _⟩ | ⟨hw, _⟩ <;>
      simp only [hw, mark] <;> omega
  by_cases hwidth : width m = width n
  · exact .inl hwidth
  · right
    rcases width_cases m with ⟨hm, _⟩ | ⟨hm, _⟩ | ⟨hm, _⟩ | ⟨hm, _⟩ <;>
      rcases width_cases n with ⟨hw, _⟩ | ⟨hw, _⟩ | ⟨hw, _⟩ | ⟨hw, _⟩ <;>
      simp only [hm, hw, mark] <;> omega

/-- The bytes of a lesser character come first, whatever follows. A character of more bytes has a
greater first byte; of two that have as many, the digits of the code points decide. -/
theorem encodeChar_append_lt {c d : Char} (h : c < d) (u v : List UInt8) :
    String.utf8EncodeChar c ++ u < String.utf8EncodeChar d ++ v := by
  have hlt : c.toNat < d.toNat := h
  have hvalid : d.toNat < 0xD800 ∨ 0xDFFF < d.toNat ∧ d.toNat < 0x110000 := d.valid
  rw [encodeChar_eq, encodeChar_eq, List.cons_append, List.cons_append, List.cons_lt_cons_iff]
  generalize c.toNat = m at hlt
  generalize d.toNat = n at hlt hvalid
  obtain ⟨hbyte, hfirst⟩ := first_lt hlt (by omega)
  rcases hfirst with hwidth | hfirst
  · rw [hwidth]
    by_cases heq : m / 64 ^ width n = n / 64 ^ width n
    · rw [heq]
      exact .inr ⟨rfl, digits_append_lt hlt u v heq⟩
    · have hle : m / 64 ^ width n ≤ n / 64 ^ width n := Nat.div_le_div_right (Nat.le_of_lt hlt)
      exact .inl (ofNat_lt (by omega) hbyte)
  · exact .inl (ofNat_lt hfirst hbyte)

theorem flatMap_encodeChar_lt {s t : List Char} (h : s < t) :
    s.flatMap String.utf8EncodeChar < t.flatMap String.utf8EncodeChar := by
  induction h with
  | nil =>
    rename_i c rest
    rw [List.flatMap_nil, List.flatMap_cons]
    cases hchar : String.utf8EncodeChar c with
    | nil => exact absurd hchar (String.utf8EncodeChar_ne_nil)
    | cons b bytes => exact List.nil_lt_cons _ _
  | rel hlt => exact encodeChar_append_lt hlt _ _
  | cons _ ih =>
    rw [List.flatMap_cons, List.flatMap_cons]
    exact List.append_left_lt ih

theorem encode_lt {s t : String} (h : s < t) : encode s < encode t := by
  rw [encode_eq_flatMap, encode_eq_flatMap]
  exact flatMap_encodeChar_lt h

end EnvClient.Text.Utf8
