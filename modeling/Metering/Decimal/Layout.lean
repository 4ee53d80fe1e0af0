import Metering.Decimal.Shortest
/-!
How the digits of a double are laid out as text. What differs between two kinds of output is one
`Layout` value.
-/

namespace Metering.Decimal

/-- Leading exponents in `[least, most]` are written with a point only, the others with an
exponent. A number always has a decimal in the first form. -/
structure Layout where
  tie : Tie
  least : Int
  most : Int
  /-- Written before an exponent that is not negative. -/
  plus : String
  notANumber : String
  infinity : String
  negativeInfinity : String

def zeros (n : Nat) : String := String.ofList (List.replicate n '0')

/-- The digits with a point after the first `whole` of them. -/
def positional (digits : List Char) (whole : Int) : String :=
  let n : Int := digits.length
  if whole ≤ 0 then "0." ++ zeros (-whole).toNat ++ String.ofList digits
  else if n ≤ whole then String.ofList digits ++ zeros (whole - n).toNat ++ ".0"
  else String.ofList (digits.take whole.toNat) ++ "." ++ String.ofList (digits.drop whole.toNat)

def exponential (plus : String) (digits : List Char) (exponent : Int) : String :=
  let fraction := digits.drop 1
  let mantissa := String.ofList (digits.take 1) ++
    (if fraction.isEmpty then "" else "." ++ String.ofList fraction)
  mantissa ++ "e" ++ (if exponent < 0 then "-" else plus) ++ toString exponent.natAbs

def Layout.magnitude (l : Layout) (s : Scientific) : String :=
  let digits := Nat.toDigits 10 s.coefficient
  let leading := s.exponent + digits.length - 1
  if l.least ≤ leading ∧ leading ≤ l.most then positional digits (leading + 1)
  else exponential l.plus digits leading

def Layout.text (l : Layout) (x : Float) : String :=
  if x.isNaN then l.notANumber
  else if x.isInf then (if Binary64.isNegative x then l.negativeInfinity else l.infinity)
  else
    let sign := if Binary64.isNegative x then "-" else ""
    if Binary64.magnitude x = 0 then sign ++ "0.0"
    else sign ++ l.magnitude (shortest l.tie x)

end Metering.Decimal
