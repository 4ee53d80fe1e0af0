import Metering.Proofs.Scanning
import Metering.Proofs.Parsing
import Mathlib.Data.List.Basic
/-!
What is written is read back: strings with their escapes, integers, and objects put together from
the texts of their members.
-/

namespace Metering.Json

/-- The value that a text holds, null where it holds none. -/
def valueOf (text : String) : Value := (parse? text).getD .null

theorem valueOf_eq {text : String} {v : Value} (h : parse? text = some v) : valueOf text = v := by
  rw [valueOf, h, Option.getD_some]

/-- A text that holds a value. -/
def Holds (text : String) : Prop := parse? text = some (valueOf text)

theorem holds_of {text : String} {v : Value} (h : parse? text = some v) : Holds text := by
  rw [Holds, h, valueOf_eq h]

/-! ### Strings -/

section Strings
variable (s : String) (c : Char) (cs : List Char)

/-- The part of a literal that a character is written as. Control characters without a short
escape are written as code units. -/
def piece : Piece :=
  if c.toNat < 0x20 ∧ c ∉ ['\x08', '\x0c', '\n', '\r', '\t'] then .unit c.toNat else .char c

def pieces : List Piece := s.toList.map piece

theorem codeUnit?_hex : ∀ n < 0x20,
    codeUnit? '0' '0' (lowerHex (n / 16)) (lowerHex (n % 16)) = some n := by decide

theorem takeString?_written (done : List Piece) (rest : List Char) :
    takeString? done (written c ++ rest) = takeString? (piece c :: done) rest := by
  unfold written
  split_ifs with quote escape b f n r t control
  · subst quote
    exact takeString?_escaped rfl
  · subst escape
    exact takeString?_escaped rfl
  · subst b
    exact takeString?_escaped rfl
  · subst f
    exact takeString?_escaped rfl
  · subst n
    exact takeString?_escaped rfl
  · subst r
    exact takeString?_escaped rfl
  · subst t
    exact takeString?_escaped rfl
  · have unit : piece c = .unit c.toNat := by simp [piece, control, b, f, n, r, t]
    rw [unit]
    exact takeString?_unit (codeUnit?_hex _ control)
  · have char : piece c = .char c := by simp [piece, control]
    rw [char]
    exact takeString?_plain quote escape control

theorem takeString?_flatMap (done : List Piece) (rest : List Char) :
    takeString? done (cs.flatMap written ++ '"' :: rest) =
      some (done.reverse ++ cs.map piece, rest) := by
  induction cs generalizing done with
  | nil => simp
  | cons c cs ih =>
    rw [List.flatMap_cons, List.append_assoc, takeString?_written, ih]
    simp

theorem tokens?_quote : tokens? (quote s).toList = some [.string (pieces s)] := by
  have string := takeString?_flatMap s.toList [] []
  rw [quote, String.toList_ofList, tokens?_cons (by decide), takeToken?_string string]
  rfl

theorem parse?_quote : parse? (quote s) = some (.string (pieces s)) :=
  parse?_eq_some.mpr (tokens?_quote s)

theorem characters?_unit {n : Nat} (rest : List Piece) (high : isHighSurrogate n = false)
    (low : isLowSurrogate n = false) :
    characters? (.unit n :: rest) = (characters? rest).map (Char.ofNat n :: ·) := by
  match rest with
  | [] => simp [characters?, high, low]
  | .char _ :: _ => simp [characters?, high, low]
  | .unit _ :: _ => simp [characters?, high, low]

theorem characters?_piece (rest : List Piece) :
    characters? (piece c :: rest) = (characters? rest).map (c :: ·) := by
  unfold piece
  split_ifs with control
  · have low : c.toNat < 0x20 := control.1
    rw [characters?_unit, Char.ofNat_toNat]
    · simp only [isHighSurrogate, Bool.and_eq_false_iff, decide_eq_false_iff_not]
      omega
    · simp only [isLowSurrogate, Bool.and_eq_false_iff, decide_eq_false_iff_not]
      omega
  · rw [characters?]

theorem characters?_map_piece : characters? (cs.map piece) = some cs := by
  induction cs with
  | nil => rfl
  | cons c cs ih => rw [List.map_cons, characters?_piece, ih, Option.map_some]

/-- Every text is understood as it was meant. -/
@[simp]
theorem text?_pieces : text? (pieces s) = some s := by
  simp [text?, pieces, characters?_map_piece]

end Strings

/-! ### Words and integers -/

section Numbers

theorem parse?_bool (b : Bool) : parse? (toString b) = some (.bool b) := by
  rw [parse?_eq_some, Value.tokens]
  cases b <;> decide

def literal (i : Int) : Number where
  negative := i < 0
  whole := Nat.toDigits 10 i.natAbs

theorem digits_toDigits (n : Nat) : Text.digits (Nat.toDigits 10 n) = (Nat.toDigits 10 n, []) := by
  have all : ∀ c ∈ Nat.toDigits 10 n, c.isDigit := fun c hc =>
    Nat.isDigit_of_mem_toDigits (by decide) (by decide) hc
  simp [Text.digits, List.takeWhile_eq_self_iff.mpr all, List.dropWhile_eq_nil_iff.mpr all]

/-- Only zero begins with a zero. -/
theorem head_toDigits {n : Nat} (h : n ≠ 0) : (Nat.toDigits 10 n).head? ≠ some '0' := by
  induction n using Nat.strong_induction_on with
  | _ n ih =>
    by_cases small : n < 10
    · have : ∀ d < 10, d ≠ 0 → d.digitChar ≠ '0' := by decide
      simpa [Nat.toDigits_of_lt_base small] using this n small h
    · rw [Nat.toDigits_of_base_le (by decide) (by omega),
        List.head?_append_of_ne_nil _ Nat.toDigits_ne_nil]
      exact ih (n / 10) (by omega) (by omega)

theorem takeWhole?_toDigits (n : Nat) :
    takeWhole? (Nat.toDigits 10 n) = some (Nat.toDigits 10 n, []) := by
  by_cases zero : n = 0
  · subst zero
    rfl
  have first := head_toDigits zero
  rw [takeWhole?, digits_toDigits]
  split
  · simp_all
  · simp_all
  · simp_all

theorem takeNumber?_toDigits (negative : Bool) (n : Nat) :
    takeNumber? negative (Nat.toDigits 10 n) =
      some ({ negative, whole := Nat.toDigits 10 n }, []) := by
  simp [takeNumber?, takeWhole?_toDigits, takeFraction?, takeExponent?]

theorem tokens?_natural (n : Nat) :
    tokens? (Nat.toDigits 10 n) = some [.number { whole := Nat.toDigits 10 n }] := by
  have number := takeNumber?_toDigits false n
  obtain ⟨c, cs, cons⟩ := List.exists_cons_of_ne_nil (Nat.toDigits_ne_nil (n := n) (b := 10))
  have digit : c.isDigit :=
    Nat.isDigit_of_mem_toDigits (n := n) (b := 10) (by decide) (by decide) (by simp [cons])
  have blank : isBlank c = false := by
    have : ∀ d, isBlank d → d.isDigit = false := by
      intro d hd
      simp only [isBlank, Bool.or_eq_true, decide_eq_true_eq] at hd
      obtain ((rfl | rfl) | rfl) | rfl := hd <;> rfl
    grind
  rw [cons] at number ⊢
  rw [tokens?_cons blank, takeToken?_digit digit number]
  rfl

theorem parse?_integer (i : Int) : parse? (toString i) = some (.number (literal i)) := by
  rw [parse?_eq_some, Value.tokens, Int.toString_eq_repr, Int.repr_eq_if]
  split_ifs with sign
  · have natAbs : i.natAbs = i.toNat := by omega
    simp [literal, sign, natAbs, tokens?_natural]
  · have natAbs : i.natAbs = (-i).toNat := by omega
    have number := takeNumber?_toDigits true (-i).toNat
    have dash : "-".toList = ['-'] := rfl
    rw [String.toList_append, Nat.toList_repr, dash, List.singleton_append,
      tokens?_cons (by decide), takeToken?_negative number]
    simp [literal, natAbs, Int.not_le.mp sign]

theorem parse?_natural (n : Nat) : parse? (toString n) = some (.number (literal n)) :=
  parse?_integer n

theorem digitsValue_toDigits (n : Nat) : Text.digitsValue (Nat.toDigits 10 n) = n :=
  Nat.ofDigitChars_ten_toDigits

/-- Every integer is understood as it was meant. -/
theorem integer?_literal (i : Int) : (literal i).integer? = some i := by
  simp only [Number.integer?, literal, digitsValue_toDigits]
  grind

end Numbers

/-! ### Objects -/

section Objects

def memberText (m : String × String) : String := quote m.1 ++ ":" ++ m.2

def objectText (ms : List (String × String)) : String :=
  "\x7b" ++ ",".intercalate (ms.map memberText) ++ "\x7d"

def membersOf (ms : List (String × String)) : List (List Piece × Value) :=
  ms.map fun m => (pieces m.1, valueOf m.2)

theorem intercalate_toList (s : String) (l : List String) :
    (",".intercalate (s :: l)).toList = s.toList ++ l.flatMap fun t => ',' :: t.toList := by
  induction l generalizing s with
  | nil => simp
  | cons t l ih =>
    rw [String.intercalate_cons_cons, String.toList_append, String.toList_append, ih]
    simp

theorem tokens?_mark {c : Char} {t : Token} (rest : List Char) (blank : isBlank c = false)
    (mark : takeToken? c rest = some (t, rest)) :
    tokens? (c :: rest) = (tokens? rest).map (t :: ·) := by
  rw [tokens?_cons blank, mark]
  rfl

theorem ends_cons {c : Char} (rest : List Char) (h : continuesNumber c = false) :
    Ends (c :: rest) := by
  rintro _ ⟨⟩
  exact h

theorem tokens?_memberText {m : String × String} (h : Holds m.2)
    {rest : List Char} (hr : Ends rest) :
    tokens? ((memberText m).toList ++ rest) =
      (tokens? rest).map fun ts =>
        .string (pieces m.1) :: .colon :: ((valueOf m.2).tokens ++ ts) := by
  have colon : ":".toList = [':'] := rfl
  have key := tokens?_append (tokens?_quote m.1) (ends_cons (m.2.toList ++ rest) (c := ':') rfl)
  rw [tokens?_mark _ rfl rfl, tokens?_append (parse?_eq_some.mp h) hr] at key
  simpa [memberText, colon, Function.comp_def] using key

/-- What follows a member of an object: the other members and the end. -/
def remainder (ms : List (String × String)) : List Char :=
  (ms.map memberText).flatMap (fun t => ',' :: t.toList) ++ ['\x7d']

theorem ends_remainder (ms : List (String × String)) : Ends (remainder ms) := by
  cases ms <;> exact ends_cons _ rfl

theorem tokens?_remainder {ms : List (String × String)}
    (h : ∀ m ∈ ms, Holds m.2) :
    tokens? (remainder ms) = some (furtherMembers (membersOf ms) ++ [.closeBrace]) := by
  induction ms with
  | nil => rfl
  | cons m ms ih =>
    have first := tokens?_memberText (h m List.mem_cons_self) (ends_remainder ms)
    rw [ih fun n hn => h n (List.mem_cons_of_mem _ hn)] at first
    have cons : remainder (m :: ms) = ',' :: ((memberText m).toList ++ remainder ms) := by
      simp [remainder]
    rw [cons, tokens?_mark _ rfl rfl, first]
    simp [membersOf, furtherMembers]

/-- The text of an object is the object of what the texts of its members are. -/
theorem parse?_objectText {ms : List (String × String)}
    (h : ∀ m ∈ ms, Holds m.2) :
    parse? (objectText ms) = some (.object (membersOf ms)) := by
  rw [parse?_eq_some]
  cases ms with
  | nil => rfl
  | cons m ms =>
    have first := tokens?_memberText (h m List.mem_cons_self) (ends_remainder ms)
    rw [tokens?_remainder fun n hn => h n (List.mem_cons_of_mem _ hn)] at first
    have open_ : "\x7b".toList = ['\x7b'] := rfl
    have close : "\x7d".toList = ['\x7d'] := rfl
    have toList : (objectText (m :: ms)).toList =
        '\x7b' :: ((memberText m).toList ++ remainder ms) := by
      rw [objectText, String.toList_append, String.toList_append, List.map_cons,
        intercalate_toList, open_, close]
      simp [remainder]
    rw [toList, tokens?_mark _ rfl rfl, first]
    simp [membersOf, Value.tokens]

end Objects

end Metering.Json
