import Metering.Json.Value
import Metering.Decimal.Layout
import Metering.Text.Digits
/-!
What a number literal means, as an integer or as a double.

A double is read from the first digits that fit a word of 64 bits, and then scaled by a power of
ten. So the result may differ in the last place from the double nearest to the literal.
-/

namespace Metering.Json

/-- The integer that a literal without point and exponent names. A negative zero is no integer. -/
def Number.integer? (n : Number) : Option Int :=
  if !n.fraction.isEmpty || n.exponent.isSome then none
  else if n.negative then
    if Text.digitsValue n.whole = 0 then none else some (-(Text.digitsValue n.whole))
  else some (Text.digitsValue n.whole)

/-- The integers of a word, with the greatest one of each sign. -/
def Number.inRange? (lo hi : Int) (n : Number) : Option Int :=
  n.integer?.bind fun i => if lo ≤ i ∧ i ≤ hi then some i else none

/-- Takes digits into a word of 64 bits as long as they fit, and counts the digits taken. The
digits left over are returned. -/
def takeWord (n count : Nat) : List Char → Nat × Nat × List Char
  | [] => (n, count, [])
  | d :: ds =>
    let next := 10 * n + Text.digitValue d
    if next < 0x10000000000000000 then takeWord next (count + 1) ds else (n, count, d :: ds)

/-- A literal as a word times a power of ten. Digits before the point that do not fit count with
their place, digits after it that do not fit are left out. -/
def Number.parts (n : Number) : Nat × Int :=
  let (word, _, left) := takeWord 0 0 n.whole
  let (word, count, _) := takeWord word 0 n.fraction
  (word, (left.length : Int) - count)

def tenTo (e : Nat) : Float := Float.ofScientific 1 false e

/-- The word scaled by a power of ten that is beyond the greatest of a double only in steps.
`none` is a number out of range. -/
def scale (f : Float) : Nat → Int → Option Float
  | 0, _ => some f
  | fuel + 1, e =>
    if e.natAbs ≤ 308 then
      if 0 ≤ e then
        let g := f * tenTo e.natAbs
        if g.isInf then none else some g
      else some (f / tenTo e.natAbs)
    else if f == 0.0 then some f
    else if 0 ≤ e then none
    else scale (f / tenTo 308) fuel (e + 308)

/-- The greatest exponent that is read. -/
def exponentLimit : Nat := 2147483647

/-- The absolute value of a literal. An exponent beyond the limit gives zero if the word is zero
or the exponent negative. -/
def Number.magnitude? (n : Number) : Option Float :=
  let (word, e) := n.parts
  let f := Float.ofNat word
  match n.exponent with
  | none => scale f (e.natAbs / 308 + 1) e
  | some (negative, ds) =>
    let x := Text.digitsValue ds
    if exponentLimit < x then (if word ≠ 0 ∧ !negative then none else some 0.0)
    else
      let e := if negative then max (e - x) (-2147483648) else min (e + x) 2147483647
      scale f (e.natAbs / 308 + 1) e

/-- The double that a literal names. A literal without point and exponent that fits a word is
rounded once. -/
def Number.float? (n : Number) : Option Float :=
  n.magnitude?.map fun f => if n.negative then -f else f

/-- How doubles are written: the fewest digits, with a point alone for exponents from -5 to 15.
A double that is no number is written as null. -/
def layout : Decimal.Layout where
  tie := .even
  least := -5
  most := 15
  plus := "+"
  notANumber := "null"
  infinity := "null"
  negativeInfinity := "null"

end Metering.Json
