import Metering.Binary64
/-!
The fewest decimal digits that still name a double. A double stands for every real number that
rounds to it. On the grid of numbers with a given count of digits only the two neighbours of the
value have to be tried: if any number of the grid lies in that interval, one of them does.
-/

namespace Metering.Decimal

/-- The number `coefficient * 10 ^ exponent`. -/
structure Scientific where
  coefficient : Nat
  exponent : Int
deriving DecidableEq, Repr

def digitCount (n : Nat) : Nat := if n = 0 then 0 else (Nat.toDigits 10 n).length

/-- Ten to a power, as a numerator and a denominator. -/
def powerOfTen (e : Int) : Nat × Nat := (Nat.pow 10 e.toNat, Nat.pow 10 (-e).toNat)

/-- The greatest `e` with `10 ^ e ≤ num / den`. -/
def leadingExponent (num den : Nat) : Int :=
  if den ≤ num then (digitCount (num / den) : Int) - 1
  else -(digitCount ((den - 1) / num) : Int)

/-- The reals that round to a positive double, as fractions over one denominator. The ends belong
to the interval exactly when the significand is even. -/
structure Interval where
  low : Nat
  value : Nat
  high : Nat
  den : Nat
  closed : Bool

/-- Below a power of two the doubles lie twice as close. -/
def interval (x : Float) : Interval :=
  let m := Binary64.significand x
  let s := Binary64.shift x
  let below := if m = Binary64.leadingOne ∧ 0 < s then 1 else 2
  let unit := Nat.pow 2 s
  { low := (4 * m - below) * unit
    value := 4 * m * unit
    high := (4 * m + 2) * unit
    den := 4 * Binary64.one
    closed := m % 2 == 0 }

def Interval.holds (i : Interval) (coefficient : Nat) (exponent : Int) : Bool :=
  let (p, q) := powerOfTen exponent
  let n := coefficient * p * i.den
  if i.closed then decide (i.low * q ≤ n ∧ n ≤ i.high * q)
  else decide (i.low * q < n ∧ n < i.high * q)

/-- Which of two equally near decimals is taken. -/
inductive Tie
  | up
  | even
deriving DecidableEq, Repr

/-- The neighbour of the value on the grid of multiples of `10 ^ exponent` that lies in the
interval, the nearer one if both do. -/
def Interval.onGrid? (i : Interval) (tie : Tie) (exponent : Int) : Option Nat :=
  let (p, q) := powerOfTen exponent
  let n := i.value * q
  let d := i.den * p
  let below := n / d
  let left := 2 * (n % d)
  match i.holds below exponent, i.holds (below + 1) exponent with
  | false, false => none
  | true, false => some below
  | false, true => some (below + 1)
  | true, true =>
    if left < d then some below
    else if d < left then some (below + 1)
    else match tie with
      | .up => some (below + 1)
      | .even => some (if below % 2 = 0 then below else below + 1)

/-- Tries grids from coarse to fine, `fuel` of them. -/
def Interval.search (i : Interval) (tie : Tie) : Nat → Int → Scientific
  | 0, exponent => ⟨i.value * (powerOfTen exponent).2 / (i.den * (powerOfTen exponent).1), exponent⟩
  | fuel + 1, exponent =>
    match i.onGrid? tie exponent with
    | some c => ⟨c, exponent⟩
    | none => i.search tie fuel (exponent - 1)

/-- Moves factors of ten from the coefficient to the exponent. -/
def Scientific.trim (s : Scientific) : Scientific :=
  go s.coefficient s.coefficient s.exponent
where
  go : Nat → Nat → Int → Scientific
    | 0, c, e => ⟨c, e⟩
    | fuel + 1, c, e => if c ≠ 0 ∧ c % 10 = 0 then go fuel (c / 10) (e + 1) else ⟨c, e⟩

/-- The shortest decimal of the absolute value of a finite double other than zero. Seventeen
digits are always enough. -/
def shortest (tie : Tie) (x : Float) : Scientific :=
  let i := interval x
  (i.search tie 17 (leadingExponent i.value i.den)).trim

end Metering.Decimal
