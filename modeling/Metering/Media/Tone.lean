import Metering.Binary64
import Metering.Media.Buffer
/-!
A source of sine tones as signed 16-bit frames. Phase, sequence numbers and timestamps go on from
frame to frame. A frame of silence is a tone of amplitude zero, so it moves them like any other.
-/

namespace Metering

structure Tone where
  format : AudioFormat
  frequency : Float
  /-- A part of full scale. -/
  amplitude : Float
  phase : Float := 0.0
  /-- The number of the next frame. Like the timestamp, it is taken to fit into 64 bits. -/
  sequence : Nat := 0
  /-- The nanoseconds before the next frame. -/
  timestamp : Nat := 0

namespace Tone

/-- A full turn in radians. -/
def turn : Float := 6.283185307179586

/-- The amplitude is kept between zero and full scale, and there is at least one channel. -/
def new (sampleRate : Float) (channels : UInt16) (frequency amplitude : Float) : Tone where
  format := .linear16 sampleRate (max channels 1)
  frequency := frequency
  amplitude := Binary64.clampUnit amplitude

def setAmplitude (t : Tone) (amplitude : Float) : Tone :=
  { t with amplitude := Binary64.clampUnit amplitude }

/-- How far the phase moves from one sample to the next. -/
def step (t : Tone) : Float := turn * t.frequency / t.format.sampleRate

/-- Instants in `ms` milliseconds; a part of an instant is left out. -/
def instants (t : Tone) (ms : Nat) : Nat :=
  (Binary64.truncate 0 18446744073709551615 (t.format.sampleRate * Float.ofNat ms / 1000.0)).toNat

def sample (amplitude phase : Float) : Int :=
  Binary64.truncate (-32768) 32767 (amplitude * 32767.0 * phase.sin)

/-- The two bytes of a sample, low byte first. -/
def bytes (sample : Int) : List UInt8 :=
  let n := (sample % 65536).toNat
  [UInt8.ofNat n, UInt8.ofNat (n / 256)]

/-- The bytes of one instant: the same sample on every channel. -/
def instant (channels : Nat) (sample : Int) : List UInt8 :=
  (List.replicate channels (bytes sample)).flatten

def advance (step phase : Float) : Float := Binary64.remainder (phase + step) turn

/-- Samples from a phase on, after those in `done`, which are in reverse, and the phase that
follows the last of them. -/
def run (amplitude step : Float) (done : List Int) : Nat → Float → List Int × Float
  | 0, phase => (done.reverse, phase)
  | n + 1, phase => run amplitude step (sample amplitude phase :: done) n (advance step phase)

def frame (t : Tone) (ms : Nat) (amplitude : Float) : Buffer × Tone :=
  let (samples, phase) := run amplitude t.step [] (t.instants ms) t.phase
  ({ data := samples.flatMap (instant t.format.channels.toNat)
     format := .audio t.format
     timestamp := t.timestamp
     sequence := t.sequence },
   { t with
     phase := phase
     sequence := t.sequence + 1
     timestamp := t.timestamp + ms * 1000000 })

/-- The next `ms` milliseconds of the tone. -/
def nextFrame (t : Tone) (ms : Nat) : Buffer × Tone := t.frame ms t.amplitude

def silence (t : Tone) (ms : Nat) : Buffer × Tone := t.frame ms 0.0

end Tone

end Metering
