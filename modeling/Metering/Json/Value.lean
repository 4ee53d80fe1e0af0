/-!
JSON values as they are written. Numbers and strings keep their literals, because what a literal
means is asked only where its value is used: a string that nobody reads may hold half of a
surrogate pair, and a number that nobody reads may be out of every range.
-/

namespace Metering.Json

/-- A part of a string literal: a character, or a code unit written with four hexadecimal
digits. -/
inductive Piece
  | char (c : Char)
  | unit (n : Nat)
deriving DecidableEq, Repr

/-- A number literal. No digits in `fraction` mean that there is no point. -/
structure Number where
  negative : Bool := false
  whole : List Char
  fraction : List Char := []
  /-- Whether the exponent is negative, and its digits. -/
  exponent : Option (Bool × List Char) := none
deriving DecidableEq, Repr

inductive Value
  | null
  | bool (b : Bool)
  | number (literal : Number)
  | string (literal : List Piece)
  | array (items : List Value)
  | object (members : List (List Piece × Value))

inductive Token
  | openBracket
  | closeBracket
  | openBrace
  | closeBrace
  | comma
  | colon
  | null
  | bool (b : Bool)
  | number (literal : Number)
  | string (literal : List Piece)
deriving DecidableEq, Repr

end Metering.Json
