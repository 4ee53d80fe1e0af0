import Metering.Monitor.Meter
/-!
The level monitor as a command.
-/

namespace Metering.Monitor

/-- What the configuration file of the arguments holds, or why it cannot be read. -/
def readConfig (args : List String) : IO (Except String String) := do
  match Arguments.read args with
  | .ok { config := some path, .. } =>
    match ← (IO.FS.readFile path).toBaseIO with
    | .ok text => return .ok text
    | .error e => return .error (toString e)
  | _ => return .error noSuchFile

end Metering.Monitor

open Metering.Monitor in
def main (args : List String) : IO UInt32 := do
  let text ← readConfig args
  let o := command args fun _ => text
  for l in o.lines do IO.println l
  if let some p := o.problem then IO.eprintln p
  return UInt32.ofNat o.exit
