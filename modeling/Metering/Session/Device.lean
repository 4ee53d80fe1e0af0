import Metering.Text.Quoted
/-!
The device that a session stands for, and the levels that it shows.
-/

namespace Metering

structure Device where
  id : String
  name : String
  /-- The device used when none is chosen. -/
  isDefault : Bool := false
deriving DecidableEq, Repr

def Device.text (d : Device) : String :=
  d.name ++ " (" ++ d.id ++ ")" ++ (if d.isDefault then " [default]" else "")

def Device.debug (d : Device) : String :=
  "AudioDevice \x7b id: " ++ Text.quoted d.id ++ ", name: " ++ Text.quoted d.name ++
    ", is_default: " ++ toString d.isDefault ++ " \x7d"

/-- The last level on each side, or `none` before the first measured frame. -/
structure Levels where
  capture : Option Int := none
  stream : Option Int := none
deriving DecidableEq, Repr

/-- The side of a session that an effect measures. -/
inductive Side
  | capture
  | stream
deriving DecidableEq, Repr

def Side.text : Side → String
  | capture => "capture data source"
  | stream => "receive stream processor"

end Metering
