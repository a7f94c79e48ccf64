import EnvClient.Proofs.Yaml.Numeral
import EnvClient.Proofs.Yaml.Plain

/-! Numbers as plain scalars. What a number is written as may stand as it is, and means that
number. -/
namespace EnvClient.Yaml

open Json (Numeral)
open Scalar (meaning)
open DecimalStyle (yaml IsFloat decimalOf)

theorem toNat_of_isDigit {c : Char} (h : c.isDigit = true) : 48 ≤ c.toNat ∧ c.toNat ≤ 57 := by
  simpa [Char.isDigit, UInt32.le_iff_toNat_le] using h

theorem ne_of_isNumberChar {c d : Char} (h : isNumberChar c = true) (hd : isNumberChar d = false) :
    c ≠ d := by
  rintro rfl
  rw [hd] at h
  cases h

theorem isInLine_of_isNumberChar {c : Char} (h : isNumberChar c = true) : Token.isInLine c = true := by
  simp only [isNumberChar, Bool.or_eq_true, beq_iff_eq] at h
  rcases h with ((h | rfl) | rfl) | rfl
  · obtain ⟨hlow, hhigh⟩ := toNat_of_isDigit h
    have hprint : isPrintable c = true := by
      simp only [isPrintable, Bool.or_eq_true, Bool.and_eq_true, beq_iff_eq, decide_eq_true_eq]
      omega
    refine Token.isInLine_iff.mpr ⟨hprint, ?_⟩
    have hne : ∀ d : Char, d.toNat < 48 ∨ 57 < d.toNat → (c == d) = false := by
      intro d hd
      refine beq_eq_false_iff_ne.mpr ?_
      rintro rfl
      omega
    simp only [isBreak]
    rw [hne '\r' (by decide), hne '\n' (by decide), hne '\u0085' (by decide),
      hne '\u2028' (by decide), hne '\u2029' (by decide)]
    rfl
  · decide
  · decide
  · decide

theorem isGap_of_isNumberChar {c : Char} (h : isNumberChar c = true) : Style.isGap c = false := by
  rw [Token.isGap_of_isInLine (isInLine_of_isNumberChar h)]
  exact beq_eq_false_iff_ne.mpr (ne_of_isNumberChar h (by decide))

theorem isIndicator_of_isNumberChar {c : Char} (h : isNumberChar c = true) :
    Style.isIndicator c = false := by
  have hall : ("#,[]\x7b\x7d&*!|>'\"%@`".toList.all (!isNumberChar ·)) = true := by decide
  refine Bool.eq_false_iff.mpr fun hmem => ?_
  have hnot := List.all_eq_true.mp hall c (List.contains_iff_mem.mp hmem)
  rw [h] at hnot
  cases hnot

theorem innerIndicator_of_isNumberChar {s : List Char} (h : ∀ c ∈ s, isNumberChar c = true)
    (afterGap : Bool) : Style.innerIndicator afterGap s = false := by
  induction s generalizing afterGap with
  | nil => rfl
  | cons c s ih =>
    obtain ⟨hc, hs⟩ := List.forall_mem_cons.mp h
    have hcolon : (c == ':') = false := beq_eq_false_iff_ne.mpr (ne_of_isNumberChar hc (by decide))
    have hhash : (c == '#') = false := beq_eq_false_iff_ne.mpr (ne_of_isNumberChar hc (by decide))
    rw [Style.innerIndicator, hcolon, hhash, ih hs]
    rfl

structure IsNumeral (s : List Char) : Prop where
  chars : ∀ c ∈ s, isNumberChar c = true
  first : ∃ sign d rest, s = sign ++ d :: rest ∧ d.isDigit = true ∧ (sign = [] ∨ sign = ['-'])

theorem IsNumeral.ne_nil {s : List Char} (h : IsNumeral s) : s ≠ [] := by
  obtain ⟨sign, d, rest, rfl, -, -⟩ := h.first
  simp

theorem IsNumeral.hasIndicator {s : List Char} (h : IsNumeral s) :
    Style.hasIndicator s = false := by
  obtain ⟨sign, d, rest, rfl, hd, hsign⟩ := h.first
  have hne : ∀ c : Char, c.isDigit = false → c ≠ d := by
    rintro c hc rfl
    rw [hd] at hc
    cases hc
  have hdash : ('-' == d) = false := beq_eq_false_iff_ne.mpr (hne '-' (by decide))
  have hdot : ('.' == d) = false := beq_eq_false_iff_ne.mpr (hne '.' (by decide))
  rcases hsign with rfl | rfl
  · have hmarks : (d == '?' || d == ':' || d == '-') = false := by
      simp only [Bool.or_eq_false_iff, beq_eq_false_iff_ne]
      exact ⟨⟨(hne '?' (by decide)).symm, (hne ':' (by decide)).symm⟩, (hne '-' (by decide)).symm⟩
    have hinner : Style.innerIndicator (Style.isGap d) rest = false :=
      innerIndicator_of_isNumberChar (List.forall_mem_cons.mp h.chars).2 _
    simp [Style.hasIndicator, List.isPrefixOf, hdash, hdot, hmarks, hinner,
      isIndicator_of_isNumberChar (isNumberChar_of_isDigit hd)]
  · have hinner : Style.innerIndicator (Style.isGap '-') (d :: rest) = false :=
      innerIndicator_of_isNumberChar (List.forall_mem_cons.mp h.chars).2 _
    have hgap : Style.startsGap (d :: rest) = false :=
      isGap_of_isNumberChar (isNumberChar_of_isDigit hd)
    rw [List.singleton_append]
    simp only [Style.hasIndicator, List.isPrefixOf, hdash, hgap, hinner]
    rfl

theorem IsNumeral.plainAllowed {s : List Char} (h : IsNumeral s) : Style.plainAllowed s = true := by
  have hspace : ∀ c ∈ s, Style.isSpace c = false := fun c hc =>
    beq_eq_false_iff_ne.mpr (ne_of_isNumberChar (h.chars c hc) (by decide))
  have hline : ∀ c ∈ s, isPrintable c = true ∧ isBreak c = false := fun c hc =>
    Token.isInLine_iff.mp (isInLine_of_isNumberChar (h.chars c hc))
  have hfirst : Style.startsWith Style.isSpace s = false := by
    cases s with
    | nil => rfl
    | cons c s => exact hspace c List.mem_cons_self
  have hlast : Style.endsWith Style.isSpace s = false := by
    rw [Style.endsWith]
    cases hlast : s.getLast? with
    | none => rfl
    | some c => exact hspace c (List.mem_of_getLast? hlast)
  have hmulti : Style.isMultiline s = false := by
    rw [Style.isMultiline, List.any_eq_false]
    exact fun c hc => Bool.eq_false_iff.mp (hline c hc).2
  have hspecial : Style.hasSpecial s = false := by
    rw [Style.hasSpecial, List.any_eq_false]
    exact fun c hc => by simp [(hline c hc).1]
  rw [Style.plainAllowed, hfirst, hlast, hmulti, hspecial, h.hasIndicator]
  rfl

def signChars (negative : Bool) : List Char := if negative then ['-'] else []

theorem IsNumeral.signed {s : List Char} {d : Char} (negative : Bool)
    (hchars : ∀ c ∈ d :: s, isNumberChar c = true) (hd : d.isDigit = true) :
    IsNumeral (signChars negative ++ d :: s) := by
  refine ⟨?_, signChars negative, d, s, rfl, hd, ?_⟩
  · intro c hc
    rcases List.mem_append.mp hc with hc | hc
    · cases negative with
      | false => cases hc
      | true =>
        rw [List.mem_singleton.mp hc]
        decide
    · exact hchars c hc
  · cases negative
    · exact .inl rfl
    · exact .inr rfl

theorem int_chars (value : Int) (fits : -0x8000000000000000 ≤ value ∧ value < 0x10000000000000000) :
    numberChars (.int value fits) =
      signChars (decide (value < 0)) ++ Nat.toDigits 10 value.natAbs := by
  rw [numberChars, Number.chars, signChars]
  · by_cases h : value < 0
    · rw [if_pos h, decide_eq_true h]
      rfl
    · rw [if_neg h, decide_eq_false h]
      rfl
  · exact nofun

theorem float_chars (x : Binary64) :
    numberChars (.float x) = signChars x.negative ++ DecimalStyle.yaml.magnitude x := by
  rw [numberChars, DecimalStyle.render, signChars]
  cases x.negative <;> rfl

theorem isNumberChar_of_mem_toDigits {n : Nat} : ∀ c ∈ Nat.toDigits 10 n, isNumberChar c = true :=
  fun c hc => isNumberChar_of_isDigit ((areDigits_toDigits n).2 c hc)

theorem isNumeral_numberChars (n : Number) : IsNumeral (numberChars n) := by
  cases n with
  | int value fits =>
    have hdigits := @isNumberChar_of_mem_toDigits value.natAbs
    rw [int_chars]
    obtain ⟨d, ds, hchars, hd⟩ := (areDigits_toDigits value.natAbs).cons
    rw [hchars] at hdigits ⊢
    exact .signed _ hdigits hd
  | float x =>
    obtain ⟨n, -, hn, hchars, -⟩ := yaml.magnitude_text x
    obtain ⟨d, rest, heq, hd⟩ := hn.cons yaml
    have hmagnitude := unsignedChars_isNumberChar hn
    rw [float_chars, hchars, heq]
    exact .signed _ (heq ▸ hmagnitude) hd

theorem digitValue?_of_isDigit {c : Char} (h : c.isDigit = true) :
    Scalar.digitValue? 10 c = some (c.toNat - '0'.toNat) := by
  obtain ⟨hlow, hhigh⟩ := toNat_of_isDigit h
  have hlt : c.toNat - '0'.toNat < 10 := by
    change c.toNat - 48 < 10
    omega
  rw [Scalar.digitValue?]
  simp only [h, if_true, if_pos hlt]

theorem natFrom?_digits {s : List Char} (h : ∀ c ∈ s, c.isDigit = true) (acc : Nat) :
    Scalar.natFrom? 10 acc s = some (Nat.ofDigitChars 10 s acc) := by
  induction s generalizing acc with
  | nil => rfl
  | cons c s ih =>
    obtain ⟨hc, hs⟩ := List.forall_mem_cons.mp h
    rw [Scalar.natFrom?, digitValue?_of_isDigit hc, Option.bind_some, ih hs]
    rfl

theorem nat?_of_mem {s : List Char} {c : Char} (hmem : c ∈ s) (hc : Scalar.digitValue? 10 c = none) :
    Scalar.nat? 10 s = none := by
  have hfrom : ∀ acc, Scalar.natFrom? 10 acc s = none := by
    induction s with
    | nil => cases hmem
    | cons d s ih =>
      intro acc
      rw [Scalar.natFrom?]
      rcases List.mem_cons.mp hmem with rfl | hmem
      · rw [hc, Option.bind_none]
      · cases Scalar.digitValue? 10 d with
        | none => rfl
        | some v => exact ih hmem _
  cases s with
  | nil => cases hmem
  | cons d s => exact hfrom 0

theorem based?_of_isNumberChar {s : List Char} (h : ∀ c ∈ s, isNumberChar c = true) :
    Scalar.based? s = none := by
  rw [Scalar.based?.eq_def]
  split
  · exact absurd (h 'x' (by simp)) (by decide)
  · exact absurd (h 'o' (by simp)) (by decide)
  · exact absurd (h 'b' (by simp)) (by decide)
  · rfl

theorem isPadded_of_mem {s : List Char} {c : Char} (hfirst : Scalar.startsSigned s = false)
    (hmem : c ∈ s) (hc : c.isDigit = false) : Scalar.isPadded s = false := by
  rw [Scalar.isPadded, hfirst, if_neg Bool.false_ne_true]
  split
  · rename_i d rest
    refine List.all_eq_false.mpr ⟨c, ?_, by rw [hc]; exact Bool.false_ne_true⟩
    rcases List.mem_cons.mp hmem with rfl | hmem
    · cases hc
    · exact hmem
  · rfl

theorem IsNumeral.meaning_eq {s : List Char} (h : IsNumeral s) :
    meaning s = (Scalar.integerMeaning? s).getD
      (if Scalar.isPadded s then .text else (Scalar.floatMeaning? s).getD .text) := by
  cases s with
  | nil => exact absurd rfl h.ne_nil
  | cons c s =>
    have hne : ∀ d, isNumberChar d = false → d ≠ c := fun d hd =>
      (ne_of_isNumberChar (h.chars c List.mem_cons_self) hd).symm
    have hnull : Scalar.isNull (c :: s) = false := by
      simp [Scalar.isNull, hne '~' (by decide), hne 'n' (by decide), hne 'N' (by decide)]
    have hbool : Scalar.bool? (c :: s) = none := by
      simp [Scalar.bool?, hne 't' (by decide), hne 'T' (by decide), hne 'f' (by decide),
        hne 'F' (by decide)]
    rw [meaning, hnull, hbool]
    simp

theorem dropPlus_of_isNumberChar {c : Char} {s : List Char} (hc : isNumberChar c = true) :
    Scalar.dropPlus (c :: s) = some (c :: s) := by
  rw [Scalar.dropPlus.eq_def]
  split
  · rename_i heq
    cases heq
    cases hc
  · rfl

theorem isPadded_minus {s : List Char} (h : Scalar.startsSigned s = false) :
    Scalar.isPadded ('-' :: s) = Scalar.isPadded s := by
  rw [Scalar.isPadded, Scalar.isPadded, h]
  rfl

theorem negative?_of_isDigit {d : Char} {s : List Char} (hd : d.isDigit = true) :
    Scalar.negative? (d :: s) = none := by
  rw [Scalar.negative?.eq_def]
  split
  · rename_i heq
    cases heq
    cases hd
  · rfl

theorem integer?_signed {d : Char} {s : List Char} (negative : Bool)
    (hchars : ∀ c ∈ d :: s, isNumberChar c = true) (hd : d.isDigit = true) :
    Scalar.integer? (signChars negative ++ d :: s) =
      (if Scalar.isPadded (d :: s) then none else Scalar.nat? 10 (d :: s)).map
        fun n : Nat => if negative then -(n : Int) else n := by
  have hbase := based?_of_isNumberChar hchars
  cases negative with
  | false =>
    change Scalar.integer? (d :: s) = _
    rw [Scalar.integer?, Scalar.unsigned?, dropPlus_of_isNumberChar (hchars d List.mem_cons_self),
      Option.bind_some, hbase, Option.none_or, negative?_of_isDigit hd]
    exact Option.or_none
  | true =>
    have hsigned : ∀ c ∈ '-' :: d :: s, isNumberChar c = true :=
      List.forall_mem_cons.mpr ⟨by decide, hchars⟩
    change Scalar.integer? ('-' :: d :: s) = _
    rw [Scalar.integer?, Scalar.unsigned?, dropPlus_of_isNumberChar (by decide), Option.bind_some,
      based?_of_isNumberChar hsigned, nat?_of_mem List.mem_cons_self (by decide), ite_self,
      Option.none_or, Option.map_none, Option.none_or, Scalar.negative?, hbase, Option.none_or]
    generalize (if Scalar.isPadded (d :: s) then none else Scalar.nat? 10 (d :: s)) = value
    cases value <;> rfl

theorem integer?_of_mark {s : List Char} {c d : Char} (negative : Bool)
    (hchars : ∀ c ∈ d :: s, isNumberChar c = true) (hd : d.isDigit = true) (hmem : c ∈ d :: s)
    (hc : c = '.' ∨ c = 'e') : Scalar.integer? (signChars negative ++ d :: s) = none := by
  have hvalue : Scalar.digitValue? 10 c = none := by rcases hc with rfl | rfl <;> decide
  rw [integer?_signed negative hchars hd, nat?_of_mem hmem hvalue, ite_self]
  rfl

theorem floatMeaning?_written {s : List Char} {d : Char} (negative : Bool) (hd : d.isDigit = true) :
    Scalar.floatMeaning? (signChars negative ++ d :: s) =
      (Scalar.decimal? negative (d :: s)).map fun x => .number (.float x) := by
  have hpoint : ('.' == d) = false := beq_eq_false_iff_ne.mpr (by rintro rfl; cases hd)
  have hinfinity : Scalar.isInfinity (d :: s) = false := by simp [Scalar.isInfinity, hpoint]
  have hnan : Scalar.isNaN (d :: s) = false := by simp [Scalar.isNaN, hpoint]
  have hminus : d ≠ '-' := by rintro rfl; cases hd
  cases negative with
  | false =>
    change Scalar.floatMeaning? (d :: s) = _
    rw [Scalar.floatMeaning?, dropPlus_of_isNumberChar (isNumberChar_of_isDigit hd), Option.bind_some,
      hinfinity, hnan, if_neg (by simp [hminus])]
    split
    · rename_i heq
      cases heq
      exact absurd rfl hminus
    · rfl
  | true =>
    change Scalar.floatMeaning? ('-' :: d :: s) = _
    have hinfinity' : Scalar.isInfinity ('-' :: d :: s) = false := by simp [Scalar.isInfinity]
    have hnan' : Scalar.isNaN ('-' :: d :: s) = false := by simp [Scalar.isNaN]
    rw [Scalar.floatMeaning?, dropPlus_of_isNumberChar (by decide), Option.bind_some,
      hinfinity', hnan', if_neg (by simp [hinfinity])]
    change Option.map _ (if Scalar.startsSigned (d :: s) then none else _) = _
    rw [startsSigned_of_isDigit hd, if_neg Bool.false_ne_true]

theorem meaning_float {n : Numeral} (h : IsFloat n) {negative : Bool} {x : Binary64}
    (hread : (decimalOf n).read? negative = some x) :
    meaning (signChars negative ++ yaml.unsignedChars n) = .number (.float x) := by
  obtain ⟨c, hmem, hc⟩ := h.exists_mark yaml
  have hchars := unsignedChars_isNumberChar h
  have hdecimal := decimal?_unsignedChars h negative
  obtain ⟨d, rest, heq, hd⟩ := h.cons yaml
  rw [hread] at hdecimal
  rw [heq] at hmem hchars hdecimal ⊢
  have hpadded : Scalar.isPadded (signChars negative ++ d :: rest) = false := by
    have hunsigned := isPadded_of_mem (startsSigned_of_isDigit hd) hmem
      (by rcases hc with rfl | rfl <;> decide)
    cases negative with
    | false => exact hunsigned
    | true => exact (isPadded_minus (startsSigned_of_isDigit hd)).trans hunsigned
  rw [(IsNumeral.signed negative hchars hd).meaning_eq, Scalar.integerMeaning?,
    integer?_of_mark negative hchars hd hmem hc, hpadded, floatMeaning?_written negative hd, hdecimal]
  rfl

theorem isPadded_toDigits (n : Nat) : Scalar.isPadded (Nat.toDigits 10 n) = false := by
  by_cases hn : n = 0
  · rw [hn]
    decide
  · rw [Scalar.isPadded, startsSigned_of_digits (areDigits_toDigits n).2, if_neg Bool.false_ne_true]
    split
    · rename_i heq
      exact absurd (congrArg List.head? heq) (head?_toDigits hn)
    · rfl

theorem nat?_toDigits (n : Nat) : Scalar.nat? 10 (Nat.toDigits 10 n) = some n := by
  have hfrom := natFrom?_digits (areDigits_toDigits n).2 0
  rw [Nat.ofDigitChars_toDigits (by decide) (by decide)] at hfrom
  cases hdigits : Nat.toDigits 10 n with
  | nil => exact absurd hdigits Nat.toDigits_ne_nil
  | cons d ds => rw [← hfrom, hdigits]; rfl

theorem integer?_toDigits (negative : Bool) (n : Nat) :
    Scalar.integer? (signChars negative ++ Nat.toDigits 10 n) =
      some (if negative then -(n : Int) else n) := by
  have hpadded := isPadded_toDigits n
  have hnat := nat?_toDigits n
  have hdigits := (areDigits_toDigits n).2
  cases hchars : Nat.toDigits 10 n with
  | nil => exact absurd hchars Nat.toDigits_ne_nil
  | cons d ds =>
    rw [hchars] at hpadded hnat hdigits
    rw [integer?_signed negative (fun c hc => isNumberChar_of_isDigit (hdigits c hc))
      (hdigits d List.mem_cons_self), hpadded, hnat]
    rfl

theorem meaning_int (value : Int) (fits : -0x8000000000000000 ≤ value ∧ value < 0x10000000000000000) :
    meaning (numberChars (.int value fits)) = .number (.int value fits) := by
  have hinteger := integer?_toDigits (decide (value < 0)) value.natAbs
  have hvalue : (if decide (value < 0) then -(value.natAbs : Int) else value.natAbs) = value := by
    by_cases h : value < 0
    · rw [decide_eq_true h, if_pos rfl]
      omega
    · rw [decide_eq_false h, if_neg Bool.false_ne_true]
      omega
  rw [hvalue, ← int_chars value fits] at hinteger
  rw [(isNumeral_numberChars _).meaning_eq, Scalar.integerMeaning?, hinteger, Option.bind_some,
    Number.ofInt?, dif_pos fits]
  rfl

theorem meaning_numberChars (n : Number) : meaning (numberChars n) = .number n := by
  cases n with
  | int value fits => exact meaning_int value fits
  | float x =>
    obtain ⟨n, -, hn, hchars, hread⟩ := yaml.magnitude_text x
    rw [float_chars, hchars]
    exact meaning_float hn hread

end EnvClient.Yaml
