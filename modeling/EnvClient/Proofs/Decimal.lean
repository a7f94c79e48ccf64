import EnvClient.Json.Numeral
import EnvClient.Proofs.Shortest
import Mathlib.Data.List.TakeDrop

/-! Texts of numbers. What a floating-point number is written as, without its sign, is digits with
a point or an exponent, and these digits are those of that number. -/
namespace EnvClient

open Json (Numeral)
open Binary64 (digitsValue)

def AreDigits (s : List Char) : Prop := s ≠ [] ∧ ∀ c ∈ s, c.isDigit = true

theorem AreDigits.cons {s : List Char} (h : AreDigits s) :
    ∃ d rest, s = d :: rest ∧ d.isDigit = true := by
  obtain ⟨hne, hall⟩ := h
  cases s with
  | nil => exact absurd rfl hne
  | cons d rest => exact ⟨d, rest, rfl, hall d List.mem_cons_self⟩

theorem isDigit_ne {c d : Char} (hc : c.isDigit = true) (hd : d.isDigit = false) : c ≠ d := by
  rintro rfl
  rw [hc] at hd
  cases hd

theorem span_digits {s t : List Char} (hs : ∀ c ∈ s, c.isDigit = true)
    (ht : ∀ c ∈ t.head?, c.isDigit = false) :
    (s ++ t).takeWhile Char.isDigit = s ∧ (s ++ t).dropWhile Char.isDigit = t := by
  rw [List.takeWhile_append_of_pos hs, List.dropWhile_append_of_pos hs]
  cases t with
  | nil => simp
  | cons c t => simp [ht c rfl]

theorem areDigits_toDigits (n : Nat) : AreDigits (Nat.toDigits 10 n) :=
  ⟨Nat.toDigits_ne_nil, fun _ => Nat.isDigit_of_mem_toDigits (by decide) (by decide)⟩

theorem head?_toDigits {n : Nat} (hn : n ≠ 0) : (Nat.toDigits 10 n).head? ≠ some '0' := by
  have hdigit : ∀ d : Fin 10, d.val ≠ 0 → Nat.digitChar d.val ≠ '0' := by decide
  induction n using Nat.strongRecOn with
  | _ n ih =>
    by_cases hlt : n < 10
    · rw [Nat.toDigits_of_lt_base hlt]
      exact fun h => hdigit ⟨n, hlt⟩ hn (Option.some.inj h)
    · have hhead := ih (n / 10) (by omega) (by omega)
      rw [Nat.toDigits_eq_if (by decide), if_neg hlt]
      cases hdigits : Nat.toDigits 10 (n / 10) with
      | nil => exact absurd hdigits Nat.toDigits_ne_nil
      | cons d ds =>
        rw [hdigits] at hhead
        exact hhead

theorem areDigits_zero : AreDigits ['0'] := by
  simp [AreDigits]

theorem AreDigits.zeros_append {s : List Char} (h : AreDigits s) (k : Nat) :
    AreDigits (List.replicate k '0' ++ s) := by
  refine ⟨by simp [h.1], fun c hc => ?_⟩
  rcases List.mem_append.mp hc with hc | hc
  · rw [(List.mem_replicate.mp hc).2]
    decide
  · exact h.2 c hc

theorem AreDigits.append_zeros {s : List Char} (h : AreDigits s) (k : Nat) :
    AreDigits (s ++ List.replicate k '0') := by
  refine ⟨by simp [h.1], fun c hc => ?_⟩
  rcases List.mem_append.mp hc with hc | hc
  · exact h.2 c hc
  · rw [(List.mem_replicate.mp hc).2]
    decide

namespace Binary64

theorem digitsValue_append (s t : List Char) :
    digitsValue (s ++ t) = Nat.ofDigitChars 10 t (digitsValue s) := List.foldl_append

theorem digitsValue_zeros (k : Nat) (t : List Char) :
    digitsValue (List.replicate k '0' ++ t) = digitsValue t := by
  induction k with
  | zero => rfl
  | succ k ih => exact ih

theorem digitsValue_append_zeros (s : List Char) (k : Nat) :
    digitsValue (s ++ List.replicate k '0') = digitsValue s * Nat.pow 10 k := by
  induction k with
  | zero =>
    rw [List.replicate_zero, List.append_nil]
    exact (Nat.mul_one _).symm
  | succ k ih =>
    rw [List.replicate_succ', ← List.append_assoc, digitsValue_append, ih]
    change 10 * (_ * Nat.pow 10 k) + 0 = _ * (Nat.pow 10 k * 10)
    rw [Nat.add_zero, Nat.mul_left_comm, Nat.mul_comm 10]

end Binary64

namespace DecimalStyle

def exponentChars (style : DecimalStyle) (n : Numeral) : List Char :=
  n.exponent.elim [] fun e => 'e' :: ((if e.1 then ['-'] else style.plus.toList) ++ e.2)

def unsignedChars (style : DecimalStyle) (n : Numeral) : List Char :=
  n.whole ++ (n.fraction.elim [] ('.' :: ·) ++ style.exponentChars n)

/-- Digits before a point or an exponent, and after it. No digit follows a zero at the start. -/
structure IsFloat (n : Numeral) : Prop where
  whole : AreDigits n.whole
  leading : ∀ rest, n.whole = '0' :: rest → rest = []
  fraction : ∀ ds ∈ n.fraction, AreDigits ds
  exponent : ∀ e ∈ n.exponent, AreDigits e.2
  mark : n.fraction.isSome = true ∨ n.exponent.isSome = true

def exponentOf (n : Numeral) : Int :=
  n.exponent.elim 0 fun e => if e.1 then -(digitsValue e.2 : Int) else digitsValue e.2

def decimalOf (n : Numeral) : Binary64.Decimal :=
  ⟨digitsValue (n.whole ++ n.fraction.getD []), exponentOf n - (n.fraction.getD []).length⟩

theorem IsFloat.exists_mark {n : Numeral} (h : IsFloat n) (style : DecimalStyle) :
    ∃ c ∈ style.unsignedChars n, c = '.' ∨ c = 'e' := by
  rcases h.mark with hmark | hmark
  · obtain ⟨ds, hds⟩ := Option.isSome_iff_exists.mp hmark
    exact ⟨'.', by simp [unsignedChars, hds], .inl rfl⟩
  · obtain ⟨e, he⟩ := Option.isSome_iff_exists.mp hmark
    exact ⟨'e', by simp [unsignedChars, exponentChars, he], .inr rfl⟩

theorem IsFloat.cons {n : Numeral} (h : IsFloat n) (style : DecimalStyle) :
    ∃ d rest, style.unsignedChars n = d :: rest ∧ d.isDigit = true := by
  obtain ⟨d, rest, hwhole, hd⟩ := h.whole.cons
  exact ⟨d, rest ++ (n.fraction.elim [] ('.' :: ·) ++ style.exponentChars n),
    by rw [unsignedChars, hwhole, List.cons_append], hd⟩

theorem IsFloat.pointed (negative : Bool) {whole fraction : List Char} (hwhole : AreDigits whole)
    (hleading : ∀ rest, whole = '0' :: rest → rest = []) (hfraction : AreDigits fraction) :
    IsFloat ⟨negative, whole, some fraction, none⟩ :=
  ⟨hwhole, hleading, fun _ hds => Option.some.inj hds ▸ hfraction, nofun, .inl rfl⟩

/-- Digits on either side of a point. The digits asked for may be fewer by zeros at the end. -/
theorem pointed_text (style : DecimalStyle) (negative : Bool) {whole fraction ds : List Char}
    {e : Int} {k : Nat} (hwhole : AreDigits whole)
    (hleading : ∀ rest, whole = '0' :: rest → rest = []) (hfraction : AreDigits fraction)
    (hvalue : digitsValue (whole ++ fraction) = digitsValue ds * Nat.pow 10 k)
    (hplaces : -(fraction.length : Int) = e - k) :
    ∃ n : Numeral, n.negative = negative ∧ IsFloat n ∧
      whole ++ '.' :: fraction = style.unsignedChars n ∧
      ∃ k : Nat, decimalOf n = ⟨digitsValue ds * Nat.pow 10 k, e - k⟩ := by
  refine ⟨_, rfl, .pointed negative hwhole hleading hfraction,
    by simp [unsignedChars, exponentChars], k, ?_⟩
  simp [decimalOf, exponentOf, hvalue, hplaces]

theorem positional_text (style : DecimalStyle) (negative : Bool) {ds : List Char} {e : Int}
    (hds : AreDigits ds) (hfirst : ds.head? ≠ some '0') :
    ∃ n : Numeral, n.negative = negative ∧ IsFloat n ∧
      positional ds (e + ds.length) = style.unsignedChars n ∧
      ∃ k : Nat, decimalOf n = ⟨digitsValue ds * Nat.pow 10 k, e - k⟩ := by
  have hself : digitsValue ds = digitsValue ds * Nat.pow 10 0 := (Nat.mul_one _).symm
  rw [positional]
  split
  · -- zeros after the point
    refine pointed_text style negative (k := 0) areDigits_zero
      (fun rest heq => (List.cons.inj heq).2.symm) (hds.zeros_append _) ?_ ?_
    · exact (Binary64.digitsValue_zeros (_ + 1) ds).trans hself
    · simp only [List.length_append, List.length_replicate]
      omega
  rename_i hpositive
  dsimp only
  have hplace : ((e + ds.length).toNat : Int) = e + ds.length := by omega
  generalize (e + ds.length).toNat = place at hplace
  split
  · -- zeros before the point
    have hleading : ∀ rest, ds ++ List.replicate (place - ds.length) '0' = '0' :: rest →
        rest = [] := by
      intro rest heq
      obtain ⟨d, ds, rfl, -⟩ := hds.cons
      cases heq
      exact absurd rfl hfirst
    refine pointed_text style negative (k := place - ds.length + 1) (hds.append_zeros _) hleading
      areDigits_zero ?_ ?_
    · rw [← Binary64.digitsValue_append_zeros, List.replicate_succ', ← List.append_assoc]
    · simp only [List.length_singleton]
      omega
  · -- the point among the digits
    rename_i hshort
    have htake : AreDigits (ds.take place) := by
      refine ⟨fun hnil => ?_, fun c hc => hds.2 c (List.mem_of_mem_take hc)⟩
      rcases List.take_eq_nil_iff.mp hnil with hnil | hnil
      · omega
      · exact hds.1 hnil
    have hdrop : AreDigits (ds.drop place) := by
      refine ⟨fun hnil => ?_, fun c hc => hds.2 c (List.mem_of_mem_drop hc)⟩
      have := List.drop_eq_nil_iff.mp hnil
      omega
    have hleading : ∀ rest, ds.take place = '0' :: rest → rest = [] := by
      intro rest heq
      have hhead : ds.head? = some '0' := by
        rw [← List.take_append_drop place ds, heq]
        rfl
      exact absurd hhead hfirst
    refine pointed_text style negative (k := 0) htake hleading hdrop ?_ ?_
    · rw [List.take_append_drop, ← hself]
    · simp only [List.length_drop]
      omega

def exponentParts (e : Int) : Bool × List Char := (decide (e < 0), Nat.toDigits 10 e.natAbs)

theorem exponentParts_value (e : Int) :
    (if (exponentParts e).1 then -(digitsValue (exponentParts e).2 : Int)
      else digitsValue (exponentParts e).2) = e := by
  rw [exponentParts, Binary64.digitsValue_toDigits]
  by_cases h : e < 0
  · rw [decide_eq_true h, if_pos rfl]
    omega
  · rw [decide_eq_false h, if_neg Bool.false_ne_true]
    omega

theorem exponentParts_digits (e : Int) : ∀ x ∈ some (exponentParts e), AreDigits x.2 := by
  rintro x hx
  cases hx
  exact areDigits_toDigits _

theorem exponentParts_chars (style : DecimalStyle) (e : Int) :
    (if e < 0 then ['-'] else style.plus.toList) ++ Nat.toDigits 10 e.natAbs =
      (if (exponentParts e).1 then ['-'] else style.plus.toList) ++ (exponentParts e).2 := by
  simp [exponentParts]

theorem scientific_text (style : DecimalStyle) (negative : Bool) {ds : List Char} {e : Int}
    (hds : AreDigits ds) :
    ∃ n : Numeral, n.negative = negative ∧ IsFloat n ∧
      style.scientific ds (e + ds.length - 1) = style.unsignedChars n ∧
      decimalOf n = ⟨digitsValue ds, e⟩ := by
  rcases ds with _ | ⟨a, _ | ⟨b, rest⟩⟩
  · exact absurd rfl hds.1
  · let exponent := e + [a].length - 1
    refine ⟨⟨negative, [a], none, some (exponentParts exponent)⟩, rfl,
      ⟨hds, fun rest heq => (List.cons.inj heq).2.symm, nofun, exponentParts_digits _, .inr rfl⟩,
      ?_, ?_⟩
    · rw [scientific, exponentParts_chars]
      · rfl
      · exact nofun
    · simp only [decimalOf, exponentOf, Option.elim_some, exponentParts_value, Option.getD_none,
        List.append_nil, Binary64.Decimal.mk.injEq, true_and, exponent, List.length_singleton,
        List.length_nil]
      omega
  · obtain ⟨ha, hrest⟩ := List.forall_mem_cons.mp hds.2
    let exponent := e + (a :: b :: rest).length - 1
    refine ⟨⟨negative, [a], some (b :: rest), some (exponentParts exponent)⟩, rfl,
      ⟨⟨List.cons_ne_nil _ _, by simpa using ha⟩, fun rest heq => (List.cons.inj heq).2.symm, ?_,
        exponentParts_digits _, .inl rfl⟩, ?_, ?_⟩
    · rintro fs hfs
      cases hfs
      exact ⟨List.cons_ne_nil _ _, hrest⟩
    · rw [scientific, exponentParts_chars]
      rfl
    · simp only [decimalOf, exponentOf, Option.elim_some, exponentParts_value, Option.getD_some,
        List.singleton_append, Binary64.Decimal.mk.injEq, true_and, exponent, List.length_cons]
      omega

end DecimalStyle

namespace Binary64

theorem eq_zero_of_isZero {x : Binary64} (h : x.isZero = true) : x = .zero x.negative := by
  obtain ⟨negative, significand, exponent, hcanonical⟩ := x
  have hsignificand : significand = 0 := by simpa [isZero] using h
  have hexponent : exponent = 0 := by omega
  subst hsignificand hexponent
  rfl

end Binary64

theorem DecimalStyle.magnitude_text (style : DecimalStyle) (x : Binary64) :
    ∃ n : Numeral, n.negative = x.negative ∧ IsFloat n ∧
      style.magnitude x = style.unsignedChars n ∧ (decimalOf n).read? x.negative = some x := by
  rw [magnitude]
  cases hx : x.isZero with
  | true =>
    have hzero : (decimalOf ⟨x.negative, ['0'], some ['0'], none⟩).read? x.negative = some x :=
      (Binary64.read?_zero _ _).trans (congrArg some (Binary64.eq_zero_of_isZero hx).symm)
    have hfloat : IsFloat ⟨x.negative, ['0'], some ['0'], none⟩ :=
      .pointed _ areDigits_zero (fun rest heq => (List.cons.inj heq).2.symm) areDigits_zero
    exact ⟨_, rfl, hfloat, rfl, hzero⟩
  | false =>
    have hread := Binary64.read?_shortest hx
    have hcoefficient := Binary64.coefficient_ne_zero hx hread
    generalize x.shortest = d at hread hcoefficient
    have hds := areDigits_toDigits d.coefficient
    rw [if_neg Bool.false_ne_true]
    dsimp only
    split
    · obtain ⟨n, hnegative, hn, hchars, k, hdecimal⟩ := @positional_text style x.negative _
        d.exponent hds (head?_toDigits hcoefficient)
      refine ⟨n, hnegative, hn, ?_, ?_⟩
      · rw [← hchars, Int.sub_add_cancel]
      · rw [hdecimal, Binary64.digitsValue_toDigits]
        exact (Binary64.ofDecimal?_mul_pow _ hcoefficient _ k).trans hread
    · obtain ⟨n, hnegative, hn, hchars, hdecimal⟩ := @scientific_text style x.negative _
        d.exponent hds
      refine ⟨n, hnegative, hn, hchars, ?_⟩
      rw [hdecimal, Binary64.digitsValue_toDigits]
      exact hread

end EnvClient
