import Metering.Json.Token
/-!
Tokens into a value. The containers that are still open are kept on a list, so a value may be
nested as deeply as its text is long.
-/

namespace Metering.Json

/-- A container that is still open: what it holds so far, in reverse, and for an object the key
that waits for its value. -/
inductive Frame
  | array (items : List Value)
  | object (members : List (List Piece × Value)) (key : List Piece)

/-- What may come next. -/
inductive Expect
  | value
  /-- A value, or the end of the array that was just opened. -/
  | firstItem
  /-- A key, or the end of the object that was just opened. -/
  | firstKey
  | key (members : List (List Piece × Value))
  | colon (members : List (List Piece × Value)) (key : List Piece)
  /-- The value is complete. -/
  | after (v : Value)

/-- Where a scalar token leads to, if it is one. -/
def Token.scalar? : Token → Option Value
  | .null => some .null
  | .bool b => some (.bool b)
  | .number n => some (.number n)
  | .string s => some (.string s)
  | _ => none

/-- Reads a value that begins with the token. -/
def beginValue (outer : List Frame) (t : Token) : Option (Expect × List Frame) :=
  match t with
  | .openBracket => some (.firstItem, outer)
  | .openBrace => some (.firstKey, outer)
  | t => t.scalar?.map fun v => (.after v, outer)

/-- One token further. -/
def advance (outer : List Frame) : Expect → Token → Option (Expect × List Frame)
  | .value, t => beginValue outer t
  | .firstItem, .closeBracket => some (.after (.array []), outer)
  | .firstItem, t => beginValue (.array [] :: outer) t
  | .firstKey, .closeBrace => some (.after (.object []), outer)
  | .firstKey, .string k => some (.colon [] k, outer)
  | .firstKey, _ => none
  | .key ms, .string k => some (.colon ms k, outer)
  | .key _, _ => none
  | .colon ms k, .colon => some (.value, .object ms k :: outer)
  | .colon _ _, _ => none
  | .after v, t =>
    match outer, t with
    | .array items :: outer, .comma => some (.value, .array (v :: items) :: outer)
    | .array items :: outer, .closeBracket => some (.after (.array (v :: items).reverse), outer)
    | .object ms k :: outer, .comma => some (.key ((k, v) :: ms), outer)
    | .object ms k :: outer, .closeBrace => some (.after (.object ((k, v) :: ms).reverse), outer)
    | _, _ => none

/-- Reads tokens to their end, where exactly one value has to be complete. -/
def build (outer : List Frame) (expect : Expect) : List Token → Option Value
  | [] =>
    match outer, expect with
    | [], .after v => some v
    | _, _ => none
  | t :: ts =>
    match advance outer expect t with
    | some (expect, outer) => build outer expect ts
    | none => none

def ofTokens? (ts : List Token) : Option Value := build [] .value ts

/-- The value that a text holds, with white space around it at most. -/
def parse? (s : String) : Option Value := (tokens? s.toList).bind ofTokens?

/-- How many containers are open at once at most. -/
def depth (ts : List Token) : Nat :=
  (ts.foldl (fun (now, most) t =>
    match t with
    | .openBracket | .openBrace => (now + 1, max most (now + 1))
    | .closeBracket | .closeBrace => (now - 1, most)
    | _ => (now, most)) (0, 0)).2

end Metering.Json
