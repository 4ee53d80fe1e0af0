/-!
What is known about the media of a track before any of it arrives. Two formats are compared with
the equality of doubles on the sample rate: a NaN differs from itself, and the two zeros agree.
-/

namespace Metering

/-- How the samples of an audio track are coded. -/
inductive Encoding
  | linear
  | ulaw
  | alaw
  | other (name : String)
deriving DecidableEq, Repr

/-- Which byte of a sample comes first. -/
inductive ByteOrder
  | little
  | big
deriving DecidableEq, Repr

structure AudioFormat where
  encoding : Encoding
  sampleRate : Float
  sampleBits : UInt16
  channels : UInt16
  order : ByteOrder
  signed : Bool
deriving BEq

structure VideoFormat where
  encoding : String
  width : UInt32
  height : UInt32
deriving DecidableEq

inductive Format
  | audio (format : AudioFormat)
  | video (format : VideoFormat)
deriving BEq

/-- Signed samples of 16 bits, low byte first. -/
def AudioFormat.linear16 (sampleRate : Float) (channels : UInt16) : AudioFormat where
  encoding := .linear
  sampleRate := sampleRate
  sampleBits := 16
  channels := channels
  order := .little
  signed := true

/-- Telephone audio: eight kilohertz, one channel, mu-law. -/
def AudioFormat.telephone : AudioFormat where
  encoding := .ulaw
  sampleRate := 8000.0
  sampleBits := 8
  channels := 1
  order := .little
  signed := false

def AudioFormat.isLinear (f : AudioFormat) : Bool := f.encoding = .linear

/-- Bytes of one sample of one channel. A part of a byte counts as a byte. -/
def AudioFormat.bytesPerSample (f : AudioFormat) : Nat := (f.sampleBits.toNat + 7) / 8

def Format.isAudio : Format → Bool
  | .audio _ => true
  | .video _ => false

def Format.audio? : Format → Option AudioFormat
  | .audio f => some f
  | .video _ => none

end Metering
