import Metering.Media.Format
/-!
Linear samples. Whatever the layout of the bytes, a sample is read as a signed integer of its size.
`samples?` is the single reading of a frame; `power?` is its root mean square, with full scale as
one.
-/

namespace Metering.Pcm

/-- The value of the bits `n` of a word of `size` values. Unsigned samples rest at the middle of
their range. -/
def centered (signed : Bool) (size n : Nat) : Int :=
  if signed then (if n < size / 2 then n else n - size) else n - size / 2

def word (order : ByteOrder) (first second : UInt8) : Nat :=
  match order with
  | .little => first.toNat + 256 * second.toNat
  | .big => 256 * first.toNat + second.toNat

/-- The samples of two bytes each, after those in `done`, which are in reverse. A byte left over
is no sample. -/
def pairs (order : ByteOrder) (signed : Bool) (done : List Int) : List UInt8 → List Int
  | first :: second :: rest =>
    pairs order signed (centered signed 65536 (word order first second) :: done) rest
  | _ => done.reverse

/-- The samples of a frame of all channels together, or `none` where the coding is not linear or
the sample size is not supported. -/
def samples? (f : AudioFormat) (data : List UInt8) : Option (List Int) :=
  if !f.isLinear then none
  else if f.sampleBits = 8 then some (data.map fun b => centered f.signed 256 b.toNat)
  else if f.sampleBits = 16 then some (pairs f.order f.signed [] data)
  else none

/-- The first value beyond those of the samples. -/
def fullScale (f : AudioFormat) : Nat := if f.sampleBits = 8 then 128 else 32768

/-- Full scale becomes one. -/
def normalize (full : Nat) (sample : Int) : Float := Float.ofInt sample / Float.ofNat full

/-- The sum of the squares, added from the first sample to the last. -/
def energy (full : Nat) (samples : List Int) : Float :=
  samples.foldl (fun sum s => sum + normalize full s * normalize full s) 0.0

def rootMeanSquare (full : Nat) (samples : List Int) : Float :=
  (energy full samples / Float.ofNat samples.length).sqrt

/-- `none` where the frame cannot be measured: no linear coding, an unsupported sample size, or
not one whole sample. -/
def power? (f : AudioFormat) (data : List UInt8) : Option Float :=
  match samples? f data with
  | none => none
  | some [] => none
  | some (s :: rest) => some (rootMeanSquare (fullScale f) (s :: rest))

end Metering.Pcm
