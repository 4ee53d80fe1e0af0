import Metering.Level.Config
import Metering.Pipeline.Processor
import Metering.Session.Device
/-!
Sessions. A session stands for the use of a device: it measures what is captured with one effect
and every received stream with an effect of its own.
-/

namespace Metering

/-- A received stream: the processor that plays it and the effect that measures it. -/
structure Stream where
  processor : ProcessorId
  effect : EffectId
deriving DecidableEq, Repr

structure Session where
  /-- Names the session in notices. -/
  label : String
  device : Device
  config : SessionConfig
  localEffect : EffectId
  /-- Told about the levels of every stream. -/
  streamListener : Option ListenerId := none
  /-- The processor in use for capture. -/
  capture : Option ProcessorId := none
  /-- In the order in which they were added. -/
  streams : List (Ssrc × Stream) := []
  /-- The application and the operations under way that use the session. A session that nobody
  uses has ended. -/
  users : Nat := 1

namespace Session

def stream? (s : Session) (ssrc : Ssrc) : Option Stream := s.streams.lookup ssrc

def hasStream (s : Session) (ssrc : Ssrc) : Bool := s.streams.any fun e => e.1 == ssrc

def addStream (s : Session) (ssrc : Ssrc) (stream : Stream) : Session :=
  { s with streams := s.streams ++ [(ssrc, stream)] }

def removeStream (s : Session) (ssrc : Ssrc) : Session :=
  { s with streams := s.streams.filter fun e => e.1 != ssrc }

end Session

end Metering
