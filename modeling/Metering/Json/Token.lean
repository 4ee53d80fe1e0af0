import Metering.Json.Value
import Metering.Text.Digits
/-!
Text into tokens. A token ends where no character can extend it; only white space may stand
between two of them.
-/

namespace Metering.Json

def isBlank (c : Char) : Bool := c = ' ' || c = '\n' || c = '\t' || c = '\r'

def hexDigit? (c : Char) : Option Nat :=
  if '0' ≤ c ∧ c ≤ '9' then some (c.toNat - '0'.toNat)
  else if 'a' ≤ c ∧ c ≤ 'f' then some (c.toNat - 'a'.toNat + 10)
  else if 'A' ≤ c ∧ c ≤ 'F' then some (c.toNat - 'A'.toNat + 10)
  else none

/-- The code unit of four hexadecimal digits. -/
def codeUnit? (a b c d : Char) : Option Nat := do
  let a ← hexDigit? a
  let b ← hexDigit? b
  let c ← hexDigit? c
  let d ← hexDigit? d
  return ((a * 16 + b) * 16 + c) * 16 + d

/-- The character that a backslash and one character stand for. -/
def escaped? (c : Char) : Option Char :=
  if c = '"' ∨ c = '\\' ∨ c = '/' then some c
  else if c = 'b' then some '\x08'
  else if c = 'f' then some '\x0c'
  else if c = 'n' then some '\n'
  else if c = 'r' then some '\r'
  else if c = 't' then some '\t'
  else none

/-- The rest of a string literal up to its closing quote, after the pieces in `done`, which are
in reverse. A control character has to be escaped. -/
def takeString? (done : List Piece) : List Char → Option (List Piece × List Char)
  | [] => none
  | c :: rest =>
    if c = '"' then some (done.reverse, rest)
    else if c = '\\' then
      match rest with
      | 'u' :: a :: b :: c :: d :: rest =>
        match codeUnit? a b c d with
        | some n => takeString? (.unit n :: done) rest
        | none => none
      | e :: rest =>
        match escaped? e with
        | some c => takeString? (.char c :: done) rest
        | none => none
      | [] => none
    else if c.toNat < 0x20 then none
    else takeString? (.char c :: done) rest

/-- Digits without a useless zero in front. -/
def takeWhole? (s : List Char) : Option (List Char × List Char) :=
  match Text.digits s with
  | ([], _) => none
  | ('0' :: _ :: _, _) => none
  | (ds, rest) => some (ds, rest)

def takeFraction? : List Char → Option (List Char × List Char)
  | '.' :: s =>
    match Text.digits s with
    | ([], _) => none
    | (ds, rest) => some (ds, rest)
  | s => some ([], s)

def takeExponent? : List Char → Option (Option (Bool × List Char) × List Char)
  | c :: s =>
    if c = 'e' ∨ c = 'E' then
      let (negative, s) := Text.takeSign s
      match Text.digits s with
      | ([], _) => none
      | (ds, rest) => some (some (negative, ds), rest)
    else some (none, c :: s)
  | [] => some (none, [])

/-- A number literal whose sign has been read. -/
def takeNumber? (negative : Bool) (s : List Char) : Option (Number × List Char) := do
  let (whole, s) ← takeWhole? s
  let (fraction, s) ← takeFraction? s
  let (exponent, s) ← takeExponent? s
  return ({ negative, whole, fraction, exponent }, s)

/-- What is left of `s` after the given word. -/
def dropWord? : List Char → List Char → Option (List Char)
  | [], s => some s
  | _ :: _, [] => none
  | w :: word, c :: s => if w = c then dropWord? word s else none

/-- The token that begins with `c`. -/
def takeToken? (c : Char) (rest : List Char) : Option (Token × List Char) :=
  if c = '[' then some (.openBracket, rest)
  else if c = ']' then some (.closeBracket, rest)
  else if c = '\x7b' then some (.openBrace, rest)
  else if c = '\x7d' then some (.closeBrace, rest)
  else if c = ',' then some (.comma, rest)
  else if c = ':' then some (.colon, rest)
  else if c = '"' then (takeString? [] rest).map fun (l, s) => (.string l, s)
  else if c = '-' then (takeNumber? true rest).map fun (n, s) => (.number n, s)
  else if c.isDigit then (takeNumber? false (c :: rest)).map fun (n, s) => (.number n, s)
  else if c = 'n' then (dropWord? ['u', 'l', 'l'] rest).map (.null, ·)
  else if c = 't' then (dropWord? ['r', 'u', 'e'] rest).map (.bool true, ·)
  else if c = 'f' then (dropWord? ['a', 'l', 's', 'e'] rest).map (.bool false, ·)
  else none

/-- The tokens of the text, after those in `done`, which are in reverse. Every character is
looked at once, so its length is fuel enough. -/
def scan (done : List Token) : Nat → List Char → Option (List Token)
  | _, [] => some done.reverse
  | 0, _ :: _ => none
  | fuel + 1, c :: rest =>
    if isBlank c then scan done fuel rest
    else match takeToken? c rest with
      | some (t, rest) => scan (t :: done) fuel rest
      | none => none

def tokens? (s : List Char) : Option (List Token) := scan [] s.length s

end Metering.Json
