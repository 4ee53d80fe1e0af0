import Metering.Text.Quoted
/-!
What a processor tells its subscribers.
-/

namespace Metering

inductive Event
  /-- Tracks can be asked for and chains be set. -/
  | configured
  | realized
  | started
  | stopped
  | closed
  | failed (message : String)
deriving DecidableEq, Repr

namespace Event

def name : Event → String
  | configured => "ConfigureComplete"
  | realized => "RealizeComplete"
  | started => "Started"
  | stopped => "Stopped"
  | closed => "Closed"
  | failed _ => "Error"

def debug : Event → String
  | failed message => "Error(" ++ Text.quoted message ++ ")"
  | e => e.name

def isConfigured (e : Event) : Bool := e == configured

end Event

end Metering
