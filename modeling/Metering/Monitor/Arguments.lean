import Metering.Decimal.Reading
/-!
The arguments of the level monitor. They are read from the first to the last, and the first one
that is wrong, or asks for help, decides.
-/

namespace Metering.Monitor

structure Arguments where
  sampleRate : Float := 48000.0
  frequency : Float := 440.0
  /-- At the start, as a part of full scale. -/
  amplitude : Float := 0.8
  /-- How many frames each processor gets. -/
  frames : Nat := 25
  /-- Milliseconds of a frame. -/
  frameMs : Nat := 20
  /-- The file that holds the configuration. -/
  config : Option String := none

inductive Refusal
  | help
  | rejected
deriving DecidableEq, Repr

/-- The names of the options. -/
def options : List String :=
  ["--sample-rate", "--frequency", "--amplitude", "--frames", "--frame-ms", "--config"]

def word? (text : String) : Option Nat := (Decimal.integer? 0 4294967295 text).map Int.toNat

/-- Stores the value of an option. -/
def Arguments.set? (a : Arguments) (option value : String) : Option Arguments :=
  if option = "--sample-rate" then (Decimal.float? value).map fun x => { a with sampleRate := x }
  else if option = "--frequency" then (Decimal.float? value).map fun x => { a with frequency := x }
  else if option = "--amplitude" then (Decimal.float? value).map fun x => { a with amplitude := x }
  else if option = "--frames" then (word? value).map fun n => { a with frames := n }
  else if option = "--frame-ms" then (word? value).map fun n => { a with frameMs := n }
  else if option = "--config" then
    if value.isEmpty then none else some { a with config := some value }
  else none

/-- A text that can be the value after an option. A single dash is one. -/
def isValue (s : String) : Bool :=
  match s.toList with
  | '-' :: _ :: _ => false
  | _ => true

/-- The name and the value of an argument with an equals sign. -/
def assignment? (s : String) : Option (String × String) :=
  let cs := s.toList
  if cs.contains '=' then
    some (String.ofList (cs.takeWhile (· != '=')), String.ofList ((cs.dropWhile (· != '=')).drop 1))
  else none

def asksHelp (s : String) : Bool := s == "--help" || s.toList.take 2 == ['-', 'h']

/-- Reads arguments. `seen` holds the options that were given before. -/
def readAll (a : Arguments) (seen : List String) : List String → Except Refusal Arguments
  | [] => .ok a
  | s :: rest =>
    if asksHelp s then .error .help
    else if s == "--" then (if rest.isEmpty then .ok a else .error .rejected)
    else match assignment? s with
      | some (option, value) =>
        if seen.contains option then .error .rejected
        else match a.set? option value with
          | some a => readAll a (option :: seen) rest
          | none => .error .rejected
      | none =>
        if !options.contains s || seen.contains s then .error .rejected
        else match rest with
          | value :: rest =>
            if !isValue value then .error .rejected
            else match a.set? s value with
              | some a => readAll a (s :: seen) rest
              | none => .error .rejected
          | [] => .error .rejected

def Arguments.read (args : List String) : Except Refusal Arguments := readAll {} [] args

end Metering.Monitor
