import Metering.Media.Format
/-!
A frame of media on its way through a track. Frames keep their bytes in the order in which they
were sampled.
-/

namespace Metering

structure Buffer where
  data : List UInt8
  format : Format
  /-- Nanoseconds since the start of the stream. -/
  timestamp : Nat := 0
  sequence : Nat := 0
  /-- Nothing in the frame is usable. -/
  discard : Bool := false
  /-- The stream ends with this frame. -/
  endOfMedia : Bool := false
deriving BEq

/-- The slot a plug-in writes its output to. -/
def Buffer.empty (format : Format) : Buffer where
  data := []
  format := format

def Buffer.size (b : Buffer) : Nat := b.data.length

def Buffer.isEmpty (b : Buffer) : Bool := b.data.isEmpty

/-- Puts every part of `source` in place of what `slot` held. -/
def Buffer.copyFrom (slot source : Buffer) : Buffer :=
  { slot with
    data := source.data
    format := source.format
    timestamp := source.timestamp
    sequence := source.sequence
    discard := source.discard
    endOfMedia := source.endOfMedia }

@[simp]
theorem Buffer.copyFrom_eq (slot source : Buffer) : slot.copyFrom source = source := rfl

end Metering
