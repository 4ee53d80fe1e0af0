/-!
A finite double is a whole number of units of `2 ^ -1074`, the smallest positive double. Here
doubles are taken apart into that number and put together from it, so that cutting to an integer,
rounding and remainders are exact integer arithmetic.
-/

namespace Metering.Binary64

/-- One, counted in units of `2 ^ -1074`. -/
def one : Nat := Nat.pow 2 1074

/-- What a word counts for each step of its exponent field. It is also the leading one of a
significand, which the word leaves out. -/
def leadingOne : Nat := 0x10000000000000

/-- What a word counts for its sign. -/
def signBit : Nat := 0x8000000000000000

def fraction (x : Float) : Nat := (x.toBits &&& 0xfffffffffffff).toNat

def biasedExponent (x : Float) : Nat := (x.toBits >>> 52 &&& 0x7ff).toNat

def isNegative (x : Float) : Bool := x.toBits >>> 63 == 1

/-- A biased exponent of zero marks the doubles without a leading one. -/
def significand (x : Float) : Nat :=
  if biasedExponent x = 0 then fraction x else fraction x + leadingOne

/-- The unit of the significand is `2 ^ shift` smallest doubles. -/
def shift (x : Float) : Nat := biasedExponent x - 1

/-- The absolute value, in units of `2 ^ -1074`. An infinity counts as `2 ^ 1024`, which is
beyond every finite double. -/
def magnitude (x : Float) : Nat := significand x * Nat.pow 2 (shift x)

/-- The double with the given sign and magnitude. Exact when the magnitude has at most 53
significant bits. -/
def ofMagnitude (negative : Bool) (n : Nat) : Float :=
  let e := n.log2 - 52
  let word := e * leadingOne + n / Nat.pow 2 e
  Float.ofBits (UInt64.ofNat (if negative then signBit + word else word))

/-- The number nearest to `n` in the range from `lo` to `hi`. -/
def clamp (lo hi n : Int) : Int := max lo (min hi n)

def withSign (negative : Bool) (n : Nat) : Int := if negative then -n else n

/-- The absolute value as a numerator and a denominator, which is a power of two. -/
def ratio (x : Float) : Nat × Nat :=
  if shift x ≤ 1074 then (significand x, Nat.pow 2 (1074 - shift x))
  else (significand x * Nat.pow 2 (shift x - 1074), 1)

/-- Cuts the fraction off. Values out of the range go to its ends, and a NaN gives zero. -/
def truncate (lo hi : Int) (x : Float) : Int :=
  if x.isNaN then 0
  else clamp lo hi (withSign (isNegative x) ((ratio x).1 / (ratio x).2))

/-- Rounds to the nearest integer, halves away from zero. Values out of the range go to its
ends, and a NaN gives zero. -/
def nearest (lo hi : Int) (x : Float) : Int :=
  if x.isNaN then 0
  else clamp lo hi (withSign (isNegative x) ((2 * (ratio x).1 + (ratio x).2) / (2 * (ratio x).2)))

/-- What is left of `x` after taking away `y` as often as it fits. It has the sign of `x`. -/
def remainder (x y : Float) : Float :=
  if x.isNaN || y.isNaN || x.isInf || y == 0.0 then 0.0 / 0.0
  else if x.abs < y.abs then x
  else ofMagnitude (isNegative x) (magnitude x % magnitude y)

/-- Keeps a NaN and a negative zero as they are. -/
def clampUnit (x : Float) : Float :=
  if x < 0.0 then 0.0 else if x > 1.0 then 1.0 else x

end Metering.Binary64
