import EnvClient.Proofs.Decimal
import EnvClient.Yaml.Printer

/-! Reading texts of numbers. A text of digits with a point or an exponent is read as the number
whose digits they are. -/
namespace EnvClient.Yaml

open Json (Numeral)
open DecimalStyle (yaml IsFloat exponentOf decimalOf)

def isNumberChar (c : Char) : Bool := c.isDigit || c == '.' || c == '-' || c == 'e'

theorem isNumberChar_of_isDigit {c : Char} (h : c.isDigit = true) : isNumberChar c = true := by
  simp [isNumberChar, h]

theorem startsSigned_of_isDigit {d : Char} {s : List Char} (hd : d.isDigit = true) :
    Scalar.startsSigned (d :: s) = false := by
  simp only [Scalar.startsSigned, Bool.or_eq_false_iff, beq_eq_false_iff_ne]
  constructor <;>
  · rintro rfl
    cases hd

theorem startsSigned_of_digits {s : List Char} (hs : ∀ c ∈ s, c.isDigit = true) :
    Scalar.startsSigned s = false := by
  cases s with
  | nil => rfl
  | cons c s => exact startsSigned_of_isDigit (hs c List.mem_cons_self)

theorem unsignedChars_isNumberChar {n : Numeral} (h : IsFloat n) :
    ∀ c ∈ yaml.unsignedChars n, isNumberChar c = true := by
  intro c hc
  rw [DecimalStyle.unsignedChars] at hc
  rcases List.mem_append.mp hc with hc | hc
  · exact isNumberChar_of_isDigit (h.whole.2 c hc)
  rcases List.mem_append.mp hc with hc | hc
  · cases hfraction : n.fraction with
    | none => rw [hfraction] at hc; cases hc
    | some ds =>
      rw [hfraction] at hc
      rcases List.mem_cons.mp hc with rfl | hc
      · decide
      · exact isNumberChar_of_isDigit ((h.fraction ds hfraction).2 c hc)
  · rw [DecimalStyle.exponentChars] at hc
    cases hexponent : n.exponent with
    | none => rw [hexponent] at hc; cases hc
    | some e =>
      rw [hexponent] at hc
      rcases List.mem_cons.mp hc with rfl | hc
      · decide
      rcases List.mem_append.mp hc with hc | hc
      · split at hc
        · rw [List.mem_singleton.mp hc]
          decide
        · cases hc
      · exact isNumberChar_of_isDigit ((h.exponent e hexponent).2 c hc)

theorem natOf_eq_digitsValue : Scalar.natOf = Binary64.digitsValue := rfl

theorem exponent?_written (negative : Bool) {ds : List Char} (hne : ds ≠ [])
    (hds : ∀ c ∈ ds, c.isDigit = true) :
    Scalar.exponent? ((if negative then ['-'] else []) ++ ds) =
      some (if negative then -(Scalar.natOf ds : Int) else Scalar.natOf ds) := by
  have hall : ds.all Char.isDigit = true := List.all_eq_true.mpr hds
  cases negative with
  | true =>
    rw [if_pos rfl, List.singleton_append, Scalar.exponent?]
    simp [Scalar.startsSigned, hne, hall]
  | false =>
    have hhead : ds.head? ≠ some '-' := by
      intro hhead
      exact absurd (hds '-' (List.mem_of_mem_head? hhead)) (by decide)
    rw [if_neg Bool.false_ne_true, List.nil_append, Scalar.exponent?, startsSigned_of_digits hds]
    simp [hne, hall, hhead]

theorem exponentChars_cases {n : Numeral} (h : IsFloat n) :
    (yaml.exponentChars n = [] ∧ exponentOf n = 0) ∨
    ∃ rest, yaml.exponentChars n = 'e' :: rest ∧ Scalar.exponent? rest = some (exponentOf n) := by
  rw [DecimalStyle.exponentChars, exponentOf]
  cases hexponent : n.exponent with
  | none => exact .inl ⟨rfl, rfl⟩
  | some e =>
    obtain ⟨hne, hdigits⟩ := h.exponent e hexponent
    exact .inr ⟨_, rfl, exponent?_written e.1 hne hdigits⟩

theorem decimal?_unsignedChars {n : Numeral} (h : IsFloat n) (negative : Bool) :
    Scalar.decimal? negative (yaml.unsignedChars n) = (decimalOf n).read? negative := by
  obtain ⟨hne, hwhole⟩ := h.whole
  have hexponent := exponentChars_cases h
  have hend : ∀ c ∈ (yaml.exponentChars n).head?, c.isDigit = false := by
    intro c hc
    rcases hexponent with ⟨hchars, -⟩ | ⟨rest, hchars, -⟩
    · rw [hchars] at hc
      cases hc
    · rw [hchars] at hc
      cases hc
      decide
  have hafter : ∀ c ∈ (n.fraction.elim [] ('.' :: ·) ++ yaml.exponentChars n).head?,
      c.isDigit = false := by
    cases n.fraction with
    | none => exact hend
    | some ds =>
      intro c hc
      cases hc
      decide
  obtain ⟨htake, hdrop⟩ := span_digits hwhole hafter
  rw [Scalar.decimal?, DecimalStyle.unsignedChars, htake, hdrop, decimalOf, Binary64.Decimal.read?]
  cases hfraction : n.fraction with
  | none =>
    rcases hexponent with ⟨hchars, hvalue⟩ | ⟨rest, hchars, hvalue⟩
    · simp [hchars, hvalue, hne, natOf_eq_digitsValue]
    · simp [hchars, hvalue, hne, natOf_eq_digitsValue]
  | some fs =>
    obtain ⟨hftake, hfdrop⟩ := span_digits (h.fraction fs hfraction).2 hend
    rcases hexponent with ⟨hchars, hvalue⟩ | ⟨rest, hchars, hvalue⟩
    · rw [hchars, List.append_nil] at hftake hfdrop
      simp [hchars, hvalue, hne, hftake, hfdrop, natOf_eq_digitsValue]
    · rw [hchars] at hftake hfdrop
      simp [hchars, hvalue, hne, hftake, hfdrop, natOf_eq_digitsValue]

end EnvClient.Yaml
