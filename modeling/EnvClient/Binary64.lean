/-! Finite binary floating-point numbers of 64 bits, in exact arithmetic. Every one of
them is a whole number of units of 2^-1074, so rounding is a division of naturals. -/
namespace EnvClient

/-- The value is `significand * 2^exponent` units of 2^-1074, negated if `negative`. The
significand has 53 bits, or fewer where the exponent is least. -/
structure Binary64 where
  negative : Bool
  significand : Nat
  exponent : Nat
  canonical : significand < 0x20000000000000 ∧ (exponent = 0 ∨ 0x10000000000000 ≤ significand) ∧ exponent ≤ 2045
deriving DecidableEq, Repr

namespace Binary64

def zero (negative : Bool) : Binary64 := ⟨negative, 0, 0, by decide⟩

instance : Inhabited Binary64 := ⟨zero false⟩

def isZero (x : Binary64) : Bool := x.significand == 0

def units (x : Binary64) : Nat := x.significand * Nat.pow 2 x.exponent

def withSign (negative : Bool) (x : Binary64) : Binary64 := { x with negative }

/-- The quotient rounded to the nearest whole number, a tie to the even one. -/
def divNearest (n d : Nat) : Nat :=
  let q := n / d
  let r := n % d
  if 2 * r < d ∨ (2 * r = d ∧ q % 2 = 0) then q else q + 1

def ofParts? (negative : Bool) (significand exponent : Nat) : Option Binary64 :=
  if h : significand < 0x20000000000000 ∧ (exponent = 0 ∨ 0x10000000000000 ≤ significand) ∧ exponent ≤ 2045 then
    some ⟨negative, significand, exponent, h⟩
  else none

/-- The number nearest to `n / d` units, a tie to the even significand; none beyond the
largest finite number. -/
def nearest (negative : Bool) (n d : Nat) : Option Binary64 :=
  let exponent := Nat.log2 (n / d) - 52
  let significand := divNearest n (d * Nat.pow 2 exponent)
  if significand = 0x20000000000000 then ofParts? negative (0x10000000000000) (exponent + 1)
  else ofParts? negative significand exponent

def ofNat? (n : Nat) : Option Binary64 := nearest false (n * Nat.pow 2 1074) 1

def mul? (x y : Binary64) : Option Binary64 :=
  nearest (x.negative != y.negative) (x.units * y.units) (Nat.pow 2 1074)

def div? (x y : Binary64) : Option Binary64 :=
  if y.isZero then none
  else nearest (x.negative != y.negative) (x.units * Nat.pow 2 1074) y.units

/-- The number nearest to `n * 10^e`. Powers far outside the range are decided by the
position of the leading digit. -/
def ofDecimal? (negative : Bool) (n : Nat) (e : Int) : Option Binary64 :=
  let leading := e + (Nat.toDigits 10 n).length
  if n = 0 ∨ leading < -330 then some (zero negative)
  else if 310 < leading then none
  else if 0 ≤ e then nearest negative (n * Nat.pow 10 e.toNat * Nat.pow 2 1074) 1
  else nearest negative (n * Nat.pow 2 1074) (Nat.pow 10 (-e).toNat)

end Binary64
end EnvClient
