/-!
The life of a processor. It is configured, realized and started step by step, may go back from
started to realized, and may be closed from everywhere.
-/

namespace Metering

inductive Phase
  | unrealized
  | configuring
  | configured
  | realizing
  | realized
  | started
  | closed
deriving DecidableEq, Repr

namespace Phase

def name : Phase → String
  | unrealized => "Unrealized"
  | configuring => "Configuring"
  | configured => "Configured"
  | realizing => "Realizing"
  | realized => "Realized"
  | started => "Started"
  | closed => "Closed"

/-- Phases in the order in which a processor reaches them, closed being the last. -/
def all : List Phase :=
  [unrealized, configuring, configured, realizing, realized, started, closed]

def rank : Phase → Nat
  | unrealized => 0
  | configuring => 1
  | configured => 2
  | realizing => 3
  | realized => 4
  | started => 5
  | closed => 6

def compare (a b : Phase) : Ordering := Ord.compare a.rank b.rank

/-- Tracks can be asked for. -/
def isConfigured (p : Phase) : Bool := configured.rank ≤ p.rank && p != closed

/-- A chain of plug-ins can be put in. -/
def acceptsChain (p : Phase) : Bool := p == configured

def isClosed (p : Phase) : Bool := p == closed

/-- A processor that is closed now had its plug-ins opened before. -/
def hadRealized (p : Phase) : Bool := realized.rank ≤ p.rank

end Phase

end Metering
