import Metering.Json.Tree
import Metering.Json.Text
import Metering.Json.Number
/-!
Records and choices read from values. A record is an object, whose members may stand in any order
beside others that nobody asks for, or an array of its fields in their order. A choice is its name
alone or an object with one member.
-/

namespace Metering.Json

/-- The members with their keys read. Every key has to mean a text, also one that nobody asks
for. -/
def keyed? : List (List Piece × Value) → Option (List (String × Value))
  | [] => some []
  | (k, v) :: rest =>
    match text? k, keyed? rest with
    | some k, some rest => some ((k, v) :: rest)
    | _, _ => none

/-- The values that stand under a key. -/
def under (name : String) (members : List (String × Value)) : List Value :=
  (members.filter fun m => m.1 == name).map Prod.snd

/-- A field may be missing but not given twice. -/
def single? : List Value → Option (Option Value)
  | [] => some none
  | [v] => some (some v)
  | _ => none

/-- The fields of a record, in the order of their names. `none` within the result is a field that
is missing. -/
def record? (names : List String) : Value → Option (List (Option Value))
  | .object members => (keyed? members).bind fun ms => names.mapM fun n => single? (under n ms)
  | .array items =>
    if items.length ≤ names.length then
      some (items.map some ++ List.replicate (names.length - items.length) none)
    else none
  | _ => none

def bool? : Value → Option Bool
  | .bool b => some b
  | _ => none

def string? : Value → Option String
  | .string s => text? s
  | _ => none

def float? : Value → Option Float
  | .number n => n.float?
  | _ => none

def integer? (lo hi : Int) : Value → Option Int
  | .number n => n.inRange? lo hi
  | _ => none

/-- Reads a field that has to be there. -/
def required {α : Type} (read : Value → Option α) : Option Value → Option α
  | some v => read v
  | none => none

/-- Reads a field that may be missing. -/
def optional {α : Type} (read : Value → Option α) (missing : α) : Option Value → Option α
  | some v => read v
  | none => some missing

/-- The name of a choice, and what it carries. -/
def choice? : Value → Option (String × Option Value)
  | .string s => (text? s).map (·, none)
  | .object [(k, v)] => (text? k).map (·, some v)
  | _ => none

/-- Nothing but a name. Where the whole text is read before it is understood, `lenient`, an empty
object counts as nothing too. -/
def isNothing (lenient : Bool) : Option Value → Bool
  | none => true
  | some .null => true
  | some (.object []) => lenient
  | some _ => false

/-- A text in which every string has a meaning and every number is in range. -/
def meaningful (ts : List Token) : Bool :=
  ts.all fun t =>
    match t with
    | .string s => (text? s).isSome
    | .number n => n.float?.isSome
    | _ => true

end Metering.Json
