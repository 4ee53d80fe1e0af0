import Metering.Level.Effect
import Metering.Pipeline.Fault
/-!
Tracks. A track sends its frames through a chain of plug-ins, which can be exchanged until the
processor of the track has realized for the first time.
-/

namespace Metering

abbrev EffectId := Nat

/-- Names a plug-in of the application. -/
abbrev CodecId := Nat

/-- A member of a chain. The same plug-in may stand at several places. -/
inductive PlugIn
  | effect (e : EffectId)
  | codec (c : CodecId) (name : String)
deriving DecidableEq, Repr

def PlugIn.name : PlugIn → String
  | effect _ => LevelEffect.name
  | codec _ name => name

/-- What is settled about a track from the start. -/
structure TrackPlan where
  format : Format
  acceptsPlugIns : Bool := true

structure Track where
  format : Format
  acceptsPlugIns : Bool
  enabled : Bool := true
  /-- The chain can no longer be exchanged. -/
  locked : Bool := false
  /-- The plug-ins of the chain are open. -/
  isOpen : Bool := false
  chain : List PlugIn := []

/-- A track that is enabled and has no plug-ins. -/
def Track.new (t : TrackPlan) : Track where
  format := t.format
  acceptsPlugIns := t.acceptsPlugIns

/-- Exchanges the chain. -/
def Track.setChain (t : Track) (chain : List PlugIn) : Except Fault Track :=
  if !t.acceptsPlugIns then .error (.unsupportedPlugIn "track does not accept codec plug-ins")
  else if t.locked then .error (.notConfigured "codec chain cannot change after realize")
  else .ok { t with chain }

end Metering
