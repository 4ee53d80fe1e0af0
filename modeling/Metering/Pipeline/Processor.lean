import Metering.Pipeline.Phase
import Metering.Pipeline.Event
import Metering.Pipeline.Track
/-!
Processors. A processor drives its tracks through the phases of its life and tells its
subscribers what happens.
-/

namespace Metering

abbrev ProcessorId := Nat

abbrev SessionId := Nat

/-- Names a watcher of the application. -/
abbrev WatcherId := Nat

/-- The synchronisation source, which names a received stream. -/
abbrev Ssrc := Nat

inductive Subscriber
  | watcher (w : WatcherId)
  /-- The session uses the processor for capture. -/
  | capture (s : SessionId)
  /-- The session plays a received stream through the processor. -/
  | stream (s : SessionId) (ssrc : Ssrc)
deriving DecidableEq, Repr

structure Processor where
  name : String
  tracks : List Track
  phase : Phase := .unrealized
  /-- In the order in which they subscribed. -/
  subscribers : List Subscriber := []
  /-- Frames that went through a chain to its end or were discarded in it. -/
  framesProcessed : UInt64 := 0
  /-- The tracks whose chains are held, the innermost call first: while the plug-ins of a chain are
  called to agree on formats, to open or to close, nobody can exchange the chain. -/
  held : List Nat := []
  /-- The application answers the calls to this processor by programs of its own. -/
  isExternal : Bool := false

/-- What a processor can be asked to do beside processing frames. -/
inductive Request
  | configure
  | realize
  | start
  | stop
  | close
  | trackControls
deriving DecidableEq, Repr

def Request.name : Request → String
  | configure => "configure"
  | realize => "realize"
  | start => "start"
  | stop => "stop"
  | close => "close"
  | trackControls => "track_controls"

namespace Processor

def new (name : String) (tracks : List TrackPlan) : Processor where
  name := name
  tracks := tracks.map .new

/-- A processor of the application, which says where its life begins. -/
def newExternal (name : String) (phase : Phase) (tracks : List TrackPlan) : Processor :=
  { new name tracks with phase, isExternal := true }

/-- Says that the phase does not allow what the verb names. -/
def cannot (p : Processor) (verb : String) : String :=
  p.name ++ " cannot " ++ verb ++ " while " ++ p.phase.name

/-- The positions of the tracks that are enabled. -/
def enabledTracks (p : Processor) : List Nat :=
  (List.range p.tracks.length).filter fun i => (p.tracks[i]?).any (·.enabled)

def modifyTrack (p : Processor) (i : Nat) (f : Track → Track) : Processor :=
  { p with tracks := p.tracks.modify i f }

def hold (p : Processor) (i : Nat) : Processor := { p with held := i :: p.held }

/-- Lets go of the chain that was held last. -/
def letGo (p : Processor) : Processor := { p with held := p.held.tail }

@[simp]
theorem letGo_hold (p : Processor) (i : Nat) : (p.hold i).letGo = p := rfl

end Processor

end Metering
