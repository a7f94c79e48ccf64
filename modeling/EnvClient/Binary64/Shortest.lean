import EnvClient.Binary64

/-! The fewest decimal digits that read back as a given number. The candidates on a grid
are the exact expansion cut there and its successor; the last grid holds the number itself. -/
namespace EnvClient.Binary64

structure Decimal where
  coefficient : Nat
  exponent : Int
deriving DecidableEq, Repr

/-- The digits of `units * 5^1074`, which are those of the number after a shift by 1074. -/
def expansion (x : Binary64) : List Char := Nat.toDigits 10 (x.units * Nat.pow 5 1074)

def digitsValue (ds : List Char) : Nat := ds.foldl (fun n c => 10 * n + (c.toNat - '0'.toNat)) 0

def readsAs (x : Binary64) (d : Decimal) : Bool :=
  ofDecimal? x.negative d.coefficient d.exponent == some x

/-- The candidate of `k` digits that reads back; of two the nearer, and on a tie the even one. -/
def onGrid? (x : Binary64) (ds : List Char) (k : Nat) : Option Decimal :=
  let dropped := ds.drop k
  let exponent : Int := (dropped.length : Int) - 1074
  let below := digitsValue (ds.take k)
  let down : Decimal := ⟨below, exponent⟩
  let up : Decimal := ⟨below + 1, exponent⟩
  match x.readsAs down, x.readsAs up with
  | true, true =>
    let twice := 2 * digitsValue dropped
    let step := Nat.pow 10 dropped.length
    if twice < step ∨ (twice = step ∧ below % 2 = 0) then some down else some up
  | true, false => some down
  | false, true => some up
  | false, false => none

def firstGrid (x : Binary64) (ds : List Char) : Nat → Nat → Decimal
  | 0, _ => ⟨digitsValue ds, -1074⟩
  | left + 1, k => (x.onGrid? ds k).getD (firstGrid x ds left (k + 1))

def Decimal.strip : Nat → Decimal → Decimal
  | 0, d => d
  | fuel + 1, d =>
    if d.coefficient % 10 = 0 ∧ d.coefficient ≠ 0 then
      strip fuel ⟨d.coefficient / 10, d.exponent + 1⟩
    else d

def shortest (x : Binary64) : Decimal :=
  if x.isZero then ⟨0, 0⟩
  else
    let ds := x.expansion
    let d := x.firstGrid ds ds.length 1
    d.strip (Nat.toDigits 10 d.coefficient).length

end EnvClient.Binary64
