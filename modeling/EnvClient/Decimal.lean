import EnvClient.Binary64.Shortest

/-! Decimal text of floating-point numbers: positional while the leading digit stands
between 10^-5 and 10^15, scientific beyond. -/
namespace EnvClient

/-- How a positive exponent is marked; everything else is common to the formats. -/
structure DecimalStyle where
  plus : String
deriving DecidableEq, Repr

namespace DecimalStyle

def json : DecimalStyle := ⟨"+"⟩
def yaml : DecimalStyle := ⟨""⟩

/-- The digits with a point after the first `whole` of them, and a digit on either side of it. -/
def positional (digits : List Char) (whole : Int) : List Char :=
  if whole ≤ 0 then '0' :: '.' :: (List.replicate (-whole).toNat '0' ++ digits)
  else
    let n := whole.toNat
    if digits.length ≤ n then digits ++ List.replicate (n - digits.length) '0' ++ ['.', '0']
    else digits.take n ++ '.' :: digits.drop n

def scientific (style : DecimalStyle) (digits : List Char) (exponent : Int) : List Char :=
  let mantissa := match digits with
    | first :: second :: rest => first :: '.' :: second :: rest
    | short => short
  let sign := if exponent < 0 then ['-'] else style.plus.toList
  mantissa ++ 'e' :: (sign ++ Nat.toDigits 10 exponent.natAbs)

def magnitude (style : DecimalStyle) (x : Binary64) : List Char :=
  if x.isZero then ['0', '.', '0']
  else
    let d := x.shortest
    let digits := Nat.toDigits 10 d.coefficient
    let exponent := d.exponent + digits.length - 1
    if -5 ≤ exponent ∧ exponent ≤ 15 then positional digits (exponent + 1)
    else style.scientific digits exponent

def render (style : DecimalStyle) (x : Binary64) : List Char :=
  if x.negative then '-' :: style.magnitude x else style.magnitude x

end DecimalStyle
end EnvClient
