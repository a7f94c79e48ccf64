import EnvClient.Decimal
import EnvClient.Json.Basic

/-! Number texts of JSON. A numeral without a point or an exponent that fits 64 bits is an
integer, any other a floating-point number or out of range. -/
namespace EnvClient.Json

structure Numeral where
  negative : Bool
  whole : List Char
  fraction : Option (List Char)
  exponent : Option (Bool × List Char)
deriving DecidableEq, Repr

namespace Numeral

def digit (c : Char) : Nat := c.toNat - '0'.toNat

def natOf (ds : List Char) : Nat := ds.foldl (fun n c => 10 * n + digit c) 0

/-- A whole number of at most 64 bits times a power of ten. -/
structure Scaled where
  significand : Nat
  exponent : Int
deriving DecidableEq, Repr

/-- Digits before the point: once one does not fit, it and all after it only count places. -/
def takeWhole : List Char → Scaled → Scaled
  | [], s => s
  | c :: rest, s =>
    let grown := 10 * s.significand + digit c
    if grown < 0x10000000000000000 then takeWhole rest ⟨grown, s.exponent⟩
    else ⟨s.significand, s.exponent + (rest.length + 1)⟩

/-- Digits after the point: once one does not fit, it and all after it are dropped. -/
def takeFraction : List Char → Scaled → Scaled
  | [], s => s
  | c :: rest, s =>
    let grown := 10 * s.significand + digit c
    if grown < 0x10000000000000000 then takeFraction rest ⟨grown, s.exponent - 1⟩ else s

def scaled (n : Numeral) : Scaled :=
  let s := takeFraction (n.fraction.getD []) (takeWhole n.whole ⟨0, 0⟩)
  match n.exponent with
  | none => s
  | some (negative, ds) =>
    let e : Int := natOf ds
    ⟨s.significand, if negative then s.exponent - e else s.exponent + e⟩

def powerOfTen? (k : Nat) : Option Binary64 := Binary64.ofNat? (Nat.pow 10 k)

/-- The significand is rounded, then multiplied or divided by a rounded power of ten. A power
below 10^-308 is divided out in two steps. -/
def approximate? (s : Scaled) : Option Binary64 := do
  let f ← Binary64.ofNat? s.significand
  if f.isZero then return f
  if 0 ≤ s.exponent then
    if 308 < s.exponent then none
    else Binary64.mul? f (← powerOfTen? s.exponent.toNat)
  else if -308 ≤ s.exponent then Binary64.div? f (← powerOfTen? (-s.exponent).toNat)
  else
    let g ← Binary64.div? f (← powerOfTen? 308)
    if -616 ≤ s.exponent then Binary64.div? g (← powerOfTen? (-s.exponent - 308).toNat)
    else return Binary64.zero false

def float? (n : Numeral) : Option Number :=
  (approximate? n.scaled).map fun f => .float (f.withSign n.negative)

/-- None when the value is beyond the largest finite number. A negative zero is a
floating-point number. -/
def number? (n : Numeral) : Option Number :=
  if n.fraction.isSome ∨ n.exponent.isSome then n.float?
  else
    let value : Int := natOf n.whole
    if n.negative ∧ value = 0 then n.float?
    else (Number.ofInt? (if n.negative then -value else value)).or n.float?

end Numeral
end EnvClient.Json
