import Metering.Decimal.Shortest
import Metering.Text.Digits
/-!
Doubles and integers as people type them. A double is read as the one nearest to the decimal.
-/

namespace Metering.Decimal

open Text (digits digitsValue takeSign)

/-- The digits after a point, if there is one. -/
def takeFraction : List Char → List Char × List Char
  | '.' :: s => digits s
  | s => ([], s)

/-- An exponent up to the end of the text. -/
def exponent? : List Char → Option Int
  | [] => some 0
  | c :: s =>
    if c = 'e' ∨ c = 'E' then
      let (negative, s) := takeSign s
      let (ds, rest) := digits s
      if ds.isEmpty || !rest.isEmpty then none
      else some (if negative then -(digitsValue ds : Int) else digitsValue ds)
    else none

/-- The double nearest to `coefficient * 10 ^ exponent`. Far beyond the range of doubles the
power is not worked out. -/
def nearestFloat (coefficient : Nat) (exponent : Int) : Float :=
  let leading := digitCount coefficient + exponent
  if coefficient = 0 ∨ leading < -400 then 0.0
  else if 400 < leading then 1.0 / 0.0
  else Float.ofScientific coefficient (exponent < 0) exponent.natAbs

/-- Digits with at most one point among or around them, and an exponent. -/
def magnitude? (s : List Char) : Option Float :=
  let (whole, s) := digits s
  let (fraction, s) := takeFraction s
  if whole.isEmpty && fraction.isEmpty then none
  else (exponent? s).map fun e =>
    nearestFloat (digitsValue (whole ++ fraction)) (e - fraction.length)

def float? (text : String) : Option Float :=
  let (negative, s) := takeSign text.toList
  let word := s.map Char.toLower
  let x :=
    if word = "nan".toList then some (0.0 / 0.0)
    else if word = "inf".toList ∨ word = "infinity".toList then some (1.0 / 0.0)
    else magnitude? s
  x.map fun x => if negative then -x else x

/-- An integer of the given range. -/
def integer? (lo hi : Int) (text : String) : Option Int :=
  let (negative, ds) := takeSign text.toList
  if ds.isEmpty || !ds.all Char.isDigit then none
  else
    let n : Int := if negative then -(digitsValue ds : Int) else digitsValue ds
    if lo ≤ n ∧ n ≤ hi then some n else none

end Metering.Decimal
