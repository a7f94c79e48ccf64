import EnvClient.Binary64
import EnvClient.Json.Basic

/-! What an unquoted scalar means: null, a boolean, a number, or a text. -/
namespace EnvClient.Yaml

inductive Meaning where
  | null
  | bool (value : Bool)
  | number (value : Number)
  /-- An integer of at most 128 bits that does not fit 64. -/
  | wide
  /-- An infinity or a value that is no number. -/
  | nonFinite
  | text
deriving DecidableEq, Repr

namespace Scalar

def isNull (s : List Char) : Bool := ["~", "null", "Null", "NULL"].any (·.toList == s)

def bool? (s : List Char) : Option Bool :=
  if ["true", "True", "TRUE"].any (·.toList == s) then some true
  else if ["false", "False", "FALSE"].any (·.toList == s) then some false
  else none

def startsSigned : List Char → Bool
  | c :: _ => c == '+' || c == '-'
  | [] => false

/-- The text after a plus sign; none if another sign follows it. -/
def dropPlus : List Char → Option (List Char)
  | '+' :: rest => if startsSigned rest then none else some rest
  | s => some s

def digitValue? (base : Nat) (c : Char) : Option Nat :=
  let value :=
    if c.isDigit then c.toNat - '0'.toNat
    else if 'a' ≤ c ∧ c ≤ 'f' then c.toNat - 'a'.toNat + 10
    else if 'A' ≤ c ∧ c ≤ 'F' then c.toNat - 'A'.toNat + 10
    else base
  if value < base then some value else none

def natFrom? (base : Nat) (acc : Nat) : List Char → Option Nat
  | [] => some acc
  | c :: rest => (digitValue? base c).bind fun d => natFrom? base (base * acc + d) rest

def nat? (base : Nat) : List Char → Option Nat
  | [] => none
  | ds => natFrom? base 0 ds

def based? : List Char → Option Nat
  | '0' :: 'x' :: rest => nat? 16 rest
  | '0' :: 'o' :: rest => nat? 8 rest
  | '0' :: 'b' :: rest => nat? 2 rest
  | _ => none

/-- A leading zero before other digits, after at most one sign: such a text is not a number. -/
def isPadded (s : List Char) : Bool :=
  match (if startsSigned s then s.drop 1 else s) with
  | '0' :: c :: rest => (c :: rest).all Char.isDigit
  | _ => false

def unsigned? (s : List Char) : Option Nat :=
  (dropPlus s).bind fun s' =>
    (based? s').or (if isPadded s then none else nat? 10 s')

def negative? : List Char → Option Nat
  | '-' :: rest => (based? rest).or (if isPadded rest then none else nat? 10 rest)
  | _ => none

def integer? (s : List Char) : Option Int :=
  ((unsigned? s).map Int.ofNat).or ((negative? s).map fun n => -(n : Int))

def isWide (n : Int) : Bool :=
  -0x80000000000000000000000000000000 ≤ n && n < 0x100000000000000000000000000000000

def integerMeaning? (s : List Char) : Option Meaning :=
  (integer? s).bind fun n =>
    match Number.ofInt? n with
    | some value => some (.number value)
    | none => if isWide n then some .wide else none

def natOf (ds : List Char) : Nat := ds.foldl (fun n c => 10 * n + (c.toNat - '0'.toNat)) 0

def exponent? (s : List Char) : Option Int :=
  let ds := if startsSigned s then s.drop 1 else s
  if ds.isEmpty ∨ !ds.all Char.isDigit then none
  else some (if s.head? = some '-' then -(natOf ds : Int) else natOf ds)

/-- Digits with an optional point, at least one digit in all, and an optional exponent. -/
def decimal? (negative : Bool) (s : List Char) : Option Binary64 :=
  let whole := s.takeWhile Char.isDigit
  let rest := s.dropWhile Char.isDigit
  let fraction := match rest with
    | '.' :: r => r.takeWhile Char.isDigit
    | _ => []
  let rest := match rest with
    | '.' :: r => r.dropWhile Char.isDigit
    | r => r
  let digits := whole ++ fraction
  if digits.isEmpty then none
  else match rest with
    | [] => Binary64.ofDecimal? negative (natOf digits) (-(fraction.length : Int))
    | c :: r =>
      if c = 'e' ∨ c = 'E' then
        (exponent? r).bind fun e =>
          Binary64.ofDecimal? negative (natOf digits) (e - fraction.length)
      else none

def isInfinity (s : List Char) : Bool := [".inf", ".Inf", ".INF"].any (·.toList == s)

def isNaN (s : List Char) : Bool := [".nan", ".NaN", ".NAN"].any (·.toList == s)

/-- A number beyond the largest finite one is a text. -/
def floatMeaning? (s : List Char) : Option Meaning :=
  (dropPlus s).bind fun s' =>
    if isInfinity s' ∨ (s.head? = some '-' ∧ isInfinity (s.drop 1)) ∨ isNaN s then
      some .nonFinite
    else
      (match s' with
        | '-' :: rest => if startsSigned rest then none else decimal? true rest
        | rest => decimal? false rest).map fun x => .number (.float x)

def meaning (s : List Char) : Meaning :=
  if s.isEmpty ∨ isNull s then .null
  else match bool? s with
    | some value => .bool value
    | none =>
      (integerMeaning? s).getD (if isPadded s then .text else (floatMeaning? s).getD .text)

end Scalar
end EnvClient.Yaml
