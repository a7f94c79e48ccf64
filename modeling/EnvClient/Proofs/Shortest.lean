import EnvClient.Binary64.Shortest

/-! The fewest digits of a number read back as that number. Reading depends on the value of the
digits alone, whichever power of ten they are given with; the exact expansion reads back, and every
shorter candidate is taken only if it does. -/
namespace EnvClient.Binary64

theorem divNearest_mul_right (n d : Nat) {k : Nat} (hk : 0 < k) :
    divNearest (n * k) (d * k) = divNearest n d := by
  have hless : 2 * (n % d * k) < d * k ↔ 2 * (n % d) < d := by
    rw [← Nat.mul_assoc]
    exact Nat.mul_lt_mul_right hk
  have hequal : 2 * (n % d * k) = d * k ↔ 2 * (n % d) = d := by
    rw [← Nat.mul_assoc]
    exact Nat.mul_left_inj (Nat.ne_of_gt hk)
  rw [divNearest, divNearest, Nat.mul_div_mul_right _ _ hk, Nat.mul_mod_mul_right]
  simp only [hless, hequal]

theorem nearest_mul_right (negative : Bool) (n d : Nat) {k : Nat} (hk : 0 < k) :
    nearest negative (n * k) (d * k) = nearest negative n d := by
  have hsignificand : ∀ m, divNearest (n * k) (d * k * m) = divNearest n (d * m) := by
    intro m
    rw [Nat.mul_right_comm]
    exact divNearest_mul_right n (d * m) hk
  rw [nearest, nearest, Nat.mul_div_mul_right _ _ hk]
  simp only [hsignificand]

theorem divNearest_exact (n : Nat) {d : Nat} (hd : 0 < d) : divNearest (n * d) d = n := by
  rw [divNearest, Nat.mul_div_cancel _ hd, Nat.mul_mod_left, if_pos (.inl (by omega))]

theorem two_pow_pos (k : Nat) : 0 < Nat.pow 2 k := Nat.pow_pos (by decide)

theorem five_pow_pos (k : Nat) : 0 < Nat.pow 5 k := Nat.pow_pos (by decide)

theorem ten_pow_pos (k : Nat) : 0 < Nat.pow 10 k := Nat.pow_pos (by decide)

theorem log2_units (x : Binary64) : Nat.log2 x.units - 52 = x.exponent := by
  obtain ⟨hlt, hnormal, -⟩ := x.canonical
  rw [units]
  rcases hnormal with hzero | hnormal
  · rw [hzero]
    change Nat.log2 (x.significand * 1) - 52 = 0
    rw [Nat.mul_one]
    by_cases hsig : x.significand = 0
    · rw [hsig]
      decide
    · have hlog : Nat.log2 x.significand < 53 := (Nat.log2_lt hsig).mpr hlt
      omega
  · have hpos := two_pow_pos x.exponent
    have hne : x.significand * Nat.pow 2 x.exponent ≠ 0 :=
      Nat.ne_of_gt (Nat.mul_pos (by omega) hpos)
    have hlog : Nat.log2 (x.significand * Nat.pow 2 x.exponent) = 52 + x.exponent := by
      refine (Nat.log2_eq_iff hne).mpr ⟨?_, ?_⟩
      · rw [Nat.pow_add]
        exact Nat.mul_le_mul_right _ hnormal
      · rw [Nat.add_right_comm, Nat.pow_add]
        exact Nat.mul_lt_mul_of_pos_right hlt hpos
    omega

theorem nearest_units (x : Binary64) : nearest x.negative x.units 1 = some x := by
  have hexact : divNearest x.units (1 * Nat.pow 2 x.exponent) = x.significand := by
    rw [Nat.one_mul]
    exact divNearest_exact _ (two_pow_pos _)
  have hne : x.significand ≠ 0x20000000000000 := Nat.ne_of_lt x.canonical.1
  rw [nearest]
  simp only [Nat.div_one, log2_units, hexact, if_neg hne]
  rw [ofParts?, dif_pos x.canonical]

theorem toDigits_ten_mul {n : Nat} (hn : n ≠ 0) :
    Nat.toDigits 10 (10 * n) = Nat.toDigits 10 n ++ ['0'] :=
  (Nat.toDigits_append_toDigits (d := 0) (by decide) (Nat.pos_of_ne_zero hn) (by decide)).symm

theorem length_toDigits_mul_pow {n : Nat} (hn : n ≠ 0) (k : Nat) :
    (Nat.toDigits 10 (n * Nat.pow 10 k)).length = (Nat.toDigits 10 n).length + k := by
  induction k with
  | zero =>
    change (Nat.toDigits 10 (n * 1)).length = _
    rw [Nat.mul_one, Nat.add_zero]
  | succ k ih =>
    have hne : n * Nat.pow 10 k ≠ 0 := Nat.mul_ne_zero hn (Nat.ne_of_gt (ten_pow_pos k))
    have hsucc : n * Nat.pow 10 (k + 1) = 10 * (n * Nat.pow 10 k) := by
      change n * (Nat.pow 10 k * 10) = _
      rw [← Nat.mul_assoc, Nat.mul_comm]
    rw [hsucc, toDigits_ten_mul hne, List.length_append, ih]
    rfl

theorem ten_pow_add (j k : Nat) : Nat.pow 10 (j + k) = Nat.pow 10 j * Nat.pow 10 k :=
  Nat.pow_add 10 j k

theorem ofDecimal?_mul_pow (negative : Bool) {n : Nat} (hn : n ≠ 0) (e : Int) (k : Nat) :
    ofDecimal? negative (n * Nat.pow 10 k) (e - k) = ofDecimal? negative n e := by
  have hne : n * Nat.pow 10 k ≠ 0 := Nat.mul_ne_zero hn (Nat.ne_of_gt (ten_pow_pos k))
  have hleading : e - k + ((Nat.toDigits 10 n).length + k : Nat) = e + (Nat.toDigits 10 n).length := by
    omega
  have hnearest : (if 0 ≤ e - k then
      nearest negative (n * Nat.pow 10 k * Nat.pow 10 (e - k).toNat * Nat.pow 2 1074) 1
      else nearest negative (n * Nat.pow 10 k * Nat.pow 2 1074) (Nat.pow 10 (-(e - k)).toNat)) =
      if 0 ≤ e then nearest negative (n * Nat.pow 10 e.toNat * Nat.pow 2 1074) 1
      else nearest negative (n * Nat.pow 2 1074) (Nat.pow 10 (-e).toNat) := by
    by_cases hshifted : 0 ≤ e - k
    · have he : e.toNat = k + (e - k).toNat := by omega
      rw [if_pos hshifted, if_pos (show 0 ≤ e by omega), he, ten_pow_add, ← Nat.mul_assoc]
    · rw [if_neg hshifted]
      split
      · -- the exponent changes its sign, so that the power is one of the divisor
        have hk : k = e.toNat + (-(e - k)).toNat := by omega
        generalize (-(e - k)).toNat = m at hk
        have hcoefficient : n * Nat.pow 10 k * Nat.pow 2 1074 =
            n * Nat.pow 10 e.toNat * Nat.pow 2 1074 * Nat.pow 10 m := by
          rw [hk, ten_pow_add, ← Nat.mul_assoc, Nat.mul_right_comm]
        have hdivisor : Nat.pow 10 m = 1 * Nat.pow 10 m := (Nat.one_mul _).symm
        rw [hcoefficient]
        exact (congrArg (nearest negative _) hdivisor).trans
          (nearest_mul_right negative _ 1 (ten_pow_pos m))
      · have hdivisor : (-(e - k)).toNat = (-e).toNat + k := by omega
        rw [hdivisor, ten_pow_add, Nat.mul_right_comm]
        exact nearest_mul_right negative _ _ (ten_pow_pos k)
  rw [ofDecimal?, ofDecimal?]
  simp only [length_toDigits_mul_pow hn, hleading, hne, hn, false_or, hnearest]

def Decimal.read? (negative : Bool) (d : Decimal) : Option Binary64 :=
  ofDecimal? negative d.coefficient d.exponent

theorem readsAs_iff {x : Binary64} {d : Decimal} :
    x.readsAs d = true ↔ d.read? x.negative = some x := by
  rw [readsAs, Decimal.read?, beq_iff_eq]

theorem mul_two_pow_lt {n j e k : Nat} (hn : n < Nat.pow 2 j) (he : e ≤ k) :
    n * Nat.pow 2 e < Nat.pow 2 (j + k) := by
  have hpow : Nat.pow 2 e ≤ Nat.pow 2 k := Nat.pow_le_pow_right (by decide) he
  have hlt := Nat.mul_lt_mul_of_lt_of_le hn hpow (two_pow_pos k)
  exact Nat.lt_of_lt_of_eq hlt (Nat.pow_add 2 j k).symm

theorem units_lt (x : Binary64) (j k : Nat) (hj : 0x20000000000000 ≤ Nat.pow 2 j) (hk : 2045 ≤ k) :
    x.units < Nat.pow 2 (j + k) :=
  mul_two_pow_lt (Nat.lt_of_lt_of_le x.canonical.1 hj) (Nat.le_trans x.canonical.2.2 hk)

theorem units_pos {x : Binary64} (hx : x.isZero = false) : 0 < x.units :=
  Nat.mul_pos (Nat.pos_of_ne_zero (by simpa [isZero] using hx)) (two_pow_pos _)

theorem digitsValue_toDigits (n : Nat) : digitsValue (Nat.toDigits 10 n) = n :=
  Nat.ofDigitChars_toDigits (by decide) (by decide)

theorem five_pow_mul_two_pow (k : Nat) : Nat.pow 5 k * Nat.pow 2 k = Nat.pow 10 k :=
  (Nat.mul_pow 5 2 k).symm

theorem nearest_expansion (x : Binary64) (k : Nat) :
    nearest x.negative (x.units * Nat.pow 5 k * Nat.pow 2 k) (Nat.pow 10 k) = some x := by
  have hdivisor : Nat.pow 10 k = 1 * Nat.pow 10 k := (Nat.one_mul _).symm
  rw [Nat.mul_assoc, five_pow_mul_two_pow]
  exact (congrArg (nearest x.negative _) hdivisor).trans
    ((nearest_mul_right x.negative x.units 1 (ten_pow_pos k)).trans (nearest_units x))

theorem ofDecimal?_neg (negative : Bool) {n k u : Nat} (hu : u = 1074) (hn : n ≠ 0) (hk : 0 < k)
    (hlow : k < (Nat.toDigits 10 n).length + 331) (hhigh : (Nat.toDigits 10 n).length < k + 311) :
    ofDecimal? negative n (-(k : Int)) = nearest negative (n * Nat.pow 2 u) (Nat.pow 10 k) := by
  have hneg : (-(-(k : Int))).toNat = k := by omega
  rw [ofDecimal?, ← hu, if_neg (by omega), if_neg (by omega), if_neg (by omega), hneg]

theorem length_toDigits_mul {n m b j k : Nat} (hn : 0 < n) (hb : n ≤ b) (hlow : Nat.pow 10 j ≤ m)
    (hhigh : b * m < Nat.pow 10 k) :
    j < (Nat.toDigits 10 (n * m)).length ∧ (Nat.toDigits 10 (n * m)).length ≤ k := by
  have hleast : Nat.pow 10 j ≤ n * m := Nat.le_trans hlow (Nat.le_mul_of_pos_left m hn)
  have hmost : n * m < Nat.pow 10 k := Nat.lt_of_le_of_lt (Nat.mul_le_mul_right m hb) hhigh
  have hk : 0 < k := by
    refine Nat.pos_of_ne_zero ?_
    rintro rfl
    exact Nat.not_le.mpr hmost (Nat.le_trans (ten_pow_pos j) hleast)
  refine ⟨?_, (Nat.length_toDigits_le_iff (by decide) hk).mpr hmost⟩
  cases j with
  | zero => exact Nat.length_toDigits_pos
  | succ j =>
    exact Nat.lt_of_not_le fun hle =>
      Nat.not_lt.mpr hleast ((Nat.length_toDigits_le_iff (by decide) (Nat.succ_pos j)).mp hle)

-- The exponent is a variable with an equation here and below: a power of it stays unevaluated.
theorem expansion_eq (x : Binary64) {u : Nat} (hu : u = 1074) :
    x.expansion = Nat.toDigits 10 (x.units * Nat.pow 5 u) := by
  rw [expansion, ← hu]

theorem length_expansion_of {x : Binary64} (hx : x.isZero = false) {u k low high : Nat}
    (hu : u = 1074) (hk : 2045 ≤ k) (hleast : Nat.pow 10 low ≤ Nat.pow 5 u)
    (hmost : Nat.pow 2 (53 + k) * Nat.pow 5 u < Nat.pow 10 high) :
    low < x.expansion.length ∧ x.expansion.length ≤ high := by
  rw [expansion_eq x hu]
  exact length_toDigits_mul (units_pos hx) (Nat.le_of_lt (units_lt x 53 k (by decide) hk)) hleast
    hmost

theorem length_expansion {x : Binary64} (hx : x.isZero = false) :
    743 < x.expansion.length ∧ x.expansion.length ≤ 1384 :=
  length_expansion_of hx rfl (Nat.le_refl _) (by decide +kernel) (by decide +kernel)

theorem digitsValue_expansion (x : Binary64) {u : Nat} (hu : u = 1074) :
    digitsValue x.expansion = x.units * Nat.pow 5 u := by
  rw [expansion_eq x hu, digitsValue_toDigits]

theorem read?_expansion {x : Binary64} (hx : x.isZero = false) :
    Decimal.read? x.negative ⟨digitsValue x.expansion, -1074⟩ = some x := by
  obtain ⟨u, hu⟩ : ∃ u, u = 1074 := ⟨_, rfl⟩
  obtain ⟨hlow, hhigh⟩ := length_expansion hx
  have hvalue := digitsValue_expansion x hu
  have hne : digitsValue x.expansion ≠ 0 := by
    rw [hvalue]
    exact Nat.ne_of_gt (Nat.mul_pos (units_pos hx) (five_pow_pos u))
  have hexponent : (-1074 : Int) = -(u : Int) := by omega
  rw [expansion_eq x hu, ← hvalue] at hlow hhigh
  rw [hexponent, Decimal.read?, ofDecimal?_neg x.negative hu hne (by omega) (by omega) (by omega),
    hvalue]
  exact nearest_expansion x u

theorem read?_zero (negative : Bool) (e : Int) :
    Decimal.read? negative ⟨0, e⟩ = some (zero negative) := by
  rw [Decimal.read?, ofDecimal?, if_pos (.inl rfl)]

theorem coefficient_ne_zero {x : Binary64} {d : Decimal} (hx : x.isZero = false)
    (h : d.read? x.negative = some x) : d.coefficient ≠ 0 := by
  intro hzero
  obtain ⟨coefficient, e⟩ := d
  rw [show coefficient = 0 from hzero, read?_zero] at h
  rw [← Option.some.inj h] at hx
  cases hx

theorem read?_onGrid {x : Binary64} {ds : List Char} {k : Nat} {d : Decimal}
    (h : x.onGrid? ds k = some d) : d.read? x.negative = some x := by
  rw [← readsAs_iff]
  rw [onGrid?] at h
  split at h
  · rename_i hdown hup
    dsimp only at h
    split at h <;> cases h
    · exact hdown
    · exact hup
  · rename_i hdown hup
    cases h
    exact hdown
  · rename_i hdown hup
    cases h
    exact hup
  · cases h

theorem read?_firstGrid {x : Binary64} (hx : x.isZero = false) (left k : Nat) :
    (x.firstGrid x.expansion left k).read? x.negative = some x := by
  induction left generalizing k with
  | zero => exact read?_expansion hx
  | succ left ih =>
    rw [firstGrid]
    cases hgrid : x.onGrid? x.expansion k with
    | none => exact ih (k + 1)
    | some d => exact read?_onGrid hgrid

theorem read?_strip (negative : Bool) (fuel : Nat) (d : Decimal) :
    (d.strip fuel).read? negative = d.read? negative := by
  induction fuel generalizing d with
  | zero => rfl
  | succ fuel ih =>
    rw [Decimal.strip]
    split
    · rename_i hstrip
      obtain ⟨hdigit, hne⟩ := hstrip
      have hshift := ofDecimal?_mul_pow negative (n := d.coefficient / 10) (by omega)
        (d.exponent + 1) 1
      rw [show d.coefficient / 10 * Nat.pow 10 1 = d.coefficient by
        change d.coefficient / 10 * 10 = _
        omega, show d.exponent + 1 - ((1 : Nat) : Int) = d.exponent by omega] at hshift
      rw [ih]
      exact hshift.symm
    · rfl

/-- The fewest digits that are written for a number are read as that number. -/
theorem read?_shortest {x : Binary64} (hx : x.isZero = false) :
    x.shortest.read? x.negative = some x := by
  rw [shortest, hx, if_neg Bool.false_ne_true]
  dsimp only
  rw [read?_strip]
  exact read?_firstGrid hx _ _

end EnvClient.Binary64
