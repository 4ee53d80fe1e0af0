import Metering.Proofs.Scanning
import Metering.Proofs.Parsing
import Metering.Proofs.Writing
import Mathlib
/-!
The grammar of the texts: which texts spell a value, stated apart from the reader. The reader gives
a value back exactly for the texts that spell it.

* `Piece.Spells`, `Number.Spells`, `Token.Spells`: literals and marks, without white space.
* `Spaced`: tokens with any white space around them.
* `parse?_iff_spells`: the reader reads a text as a value just if the text spells it.
-/

namespace Metering.Json

/-! ### Grammar -/

/-- A character as it is, unless it has to be escaped, an escape, or four hexadecimal digits. -/
inductive Piece.Spells : Piece → List Char → Prop
  | plain {c : Char} (quote : c ≠ '"') (escape : c ≠ '\\') (control : ¬c.toNat < 0x20) :
      Spells (.char c) [c]
  | escaped {e c : Char} (meaning : escaped? e = some c) : Spells (.char c) ['\\', e]
  | unit {a b c d : Char} {n : Nat} (meaning : codeUnit? a b c d = some n) :
      Spells (.unit n) ['\\', 'u', a, b, c, d]

inductive Pieces : List Piece → List Char → Prop
  | nil : Pieces [] []
  | cons {p : Piece} {ps : List Piece} {l s : List Char} (first : p.Spells l) (rest : Pieces ps s) :
      Pieces (p :: ps) (l ++ s)

def AllDigits (ds : List Char) : Prop := ∀ d ∈ ds, d.isDigit

/-- The part of a number behind the point, with the point. -/
inductive Fraction : List Char → List Char → Prop
  | none : Fraction [] []
  | some {ds : List Char} (filled : ds ≠ []) (digits : AllDigits ds) : Fraction ds ('.' :: ds)

/-- The signs of an exponent, and whether they make it negative. -/
inductive ExponentSign : Bool → List Char → Prop
  | none : ExponentSign false []
  | plus : ExponentSign false ['+']
  | minus : ExponentSign true ['-']

inductive Exponent : Option (Bool × List Char) → List Char → Prop
  | none : Exponent none []
  | some {negative : Bool} {sign ds : List Char} {e : Char} (mark : e = 'e' ∨ e = 'E')
      (signed : ExponentSign negative sign) (filled : ds ≠ []) (digits : AllDigits ds) :
      Exponent (some (negative, ds)) (e :: (sign ++ ds))

/-- Digits in front of the point: at least one, and a zero only by itself. -/
structure Whole (ds : List Char) : Prop where
  filled : ds ≠ []
  digits : AllDigits ds
  zero : ds.head? = some '0' → ds = ['0']

inductive Number.Unsigned (n : Number) : List Char → Prop
  | spells {fraction exponent : List Char} (whole : Whole n.whole)
      (behind : Fraction n.fraction fraction) (scaled : Exponent n.exponent exponent) :
      Unsigned n (n.whole ++ (fraction ++ exponent))

def Token.word? : Token → Option (List Char)
  | .openBracket => some ['[']
  | .closeBracket => some [']']
  | .openBrace => some ['\x7b']
  | .closeBrace => some ['\x7d']
  | .comma => some [',']
  | .colon => some [':']
  | .null => some ['n', 'u', 'l', 'l']
  | .bool true => some ['t', 'r', 'u', 'e']
  | .bool false => some ['f', 'a', 'l', 's', 'e']
  | .number _ | .string _ => none

inductive Token.Spells : Token → List Char → Prop
  | word {t : Token} {l : List Char} (word : t.word? = some l) : Spells t l
  | string {ps : List Piece} {l : List Char} (pieces : Pieces ps l) :
      Spells (.string ps) ('"' :: (l ++ ['"']))
  | positive {n : Number} {l : List Char} (sign : n.negative = false) (number : n.Unsigned l) :
      Spells (.number n) l
  | negative {n : Number} {l : List Char} (sign : n.negative = true) (number : n.Unsigned l) :
      Spells (.number n) ('-' :: l)

def Blank (s : List Char) : Prop := ∀ c ∈ s, isBlank c

/-- Tokens one after the other, with any white space around them. -/
inductive Spaced : List Token → List Char → Prop
  | nil {space : List Char} (blank : Blank space) : Spaced [] space
  | cons {t : Token} {ts : List Token} {space l s : List Char} (blank : Blank space)
      (first : t.Spells l) (rest : Spaced ts s) : Spaced (t :: ts) (space ++ (l ++ s))

/-- A text that holds a value, with any white space between its tokens. -/
def Spells (text : String) (v : Value) : Prop := Spaced v.tokens text.toList

/-! ### What is read is spelled -/

section Strings
variable {s rest : List Char}

theorem pieces_of_takeString? {done pieces : List Piece}
    (h : takeString? done s = some (pieces, rest)) :
    ∃ ps l, Pieces ps l ∧ pieces = done.reverse ++ ps ∧ s = l ++ '"' :: rest := by
  fun_induction takeString? done s with
  | case1 | case4 | case6 | case7 | case8 => cases h
  | case2 =>
    cases h
    exact ⟨[], [], .nil, by simp, rfl⟩
  | case3 done a b c d rest n meaning _ ih =>
    obtain ⟨ps, l, spelled, rfl, rfl⟩ := ih h
    exact ⟨.unit n :: ps, _, .cons (.unit meaning) spelled, by simp, rfl⟩
  | case5 done e rest _ c meaning _ ih =>
    obtain ⟨ps, l, spelled, rfl, rfl⟩ := ih h
    exact ⟨.char _ :: ps, _, .cons (.escaped meaning) spelled, by simp, rfl⟩
  | case9 done c rest quote escape control ih =>
    obtain ⟨ps, l, spelled, rfl, rfl⟩ := ih h
    exact ⟨.char c :: ps, _, .cons (.plain quote escape control) spelled, by simp, rfl⟩

theorem takeString?_of_pieces {ps : List Piece} {l : List Char} (h : Pieces ps l)
    (done : List Piece) (rest : List Char) :
    takeString? done (l ++ '"' :: rest) = some (done.reverse ++ ps, rest) := by
  induction h generalizing done with
  | nil => simp
  | @cons p ps l s first _ ih =>
    cases first with
    | plain quote escape control =>
      rw [List.append_assoc, List.singleton_append, takeString?_plain quote escape control, ih]
      simp
    | escaped meaning =>
      rw [List.append_assoc]
      change takeString? done ('\\' :: _ :: (s ++ '"' :: rest)) = _
      rw [takeString?_escaped meaning, ih]
      simp
    | unit meaning =>
      rw [List.append_assoc]
      change takeString? done ('\\' :: 'u' :: _ :: _ :: _ :: _ :: (s ++ '"' :: rest)) = _
      rw [takeString?_unit meaning, ih]
      simp

end Strings

section Numbers
variable {s rest : List Char}

/-- Digits are taken as far as they go. -/
theorem digits_eq_iff {ds : List Char} : Text.digits s = (ds, rest) ↔
    s = ds ++ rest ∧ AllDigits ds ∧ ∀ c ∈ rest.head?, c.isDigit = false := by
  constructor
  · intro h
    obtain ⟨rfl, rfl⟩ := Prod.mk.inj h
    refine ⟨List.takeWhile_append_dropWhile.symm, fun d member => List.mem_takeWhile_imp member, ?_⟩
    intro c first
    have stop := List.head?_dropWhile_not Char.isDigit s
    rw [Option.mem_def.mp first] at stop
    exact stop
  · rintro ⟨rfl, digits, stop⟩
    have ends : rest.takeWhile Char.isDigit = [] ∧ rest.dropWhile Char.isDigit = rest := by
      cases rest with
      | nil => exact ⟨rfl, rfl⟩
      | cons c rest => simp [stop c rfl]
    rw [Text.digits, List.takeWhile_append_of_pos digits, List.dropWhile_append_of_pos digits,
      ends.1, ends.2, List.append_nil]

theorem takeWhole?_eq_some {ds : List Char} : takeWhole? s = some (ds, rest) ↔
    s = ds ++ rest ∧ Whole ds ∧ ∀ c ∈ rest.head?, c.isDigit = false := by
  constructor
  · intro h
    have taken : Text.digits s = (ds, rest) ∧ ds ≠ [] ∧ (ds.head? = some '0' → ds = ['0']) := by
      unfold takeWhole? at h
      split at h
      · cases h
      · cases h
      · next ds' rest' notEmpty notZero split =>
        obtain ⟨rfl, rfl⟩ := Prod.mk.inj (Option.some.inj h)
        refine ⟨split, ?_, fun zero => ?_⟩
        · rintro rfl
          exact notEmpty rfl
        · match ds', zero with
          | [_], zero => exact congrArg (fun o => [o]) (Option.some.inj zero)
          | c :: d :: ds', zero =>
            obtain rfl := Option.some.inj zero
            exact (notZero _ _ rfl).elim
    obtain ⟨same, digits, stop⟩ := digits_eq_iff.mp taken.1
    exact ⟨same, ⟨taken.2.1, digits, taken.2.2⟩, stop⟩
  · rintro ⟨rfl, whole, stop⟩
    have taken := digits_eq_iff.mpr ⟨rfl, whole.digits, stop⟩
    obtain ⟨c, ds, rfl⟩ := List.exists_cons_of_ne_nil whole.filled
    unfold takeWhole?
    rw [taken]
    split
    · next h => cases h
    · next h =>
      cases h
      cases whole.zero rfl
    · next h =>
      obtain ⟨rfl, rfl⟩ := Prod.mk.inj h
      rfl

theorem fraction_of_takeFraction? {ds : List Char} (h : takeFraction? s = some (ds, rest)) :
    ∃ l, Fraction ds l ∧ s = l ++ rest := by
  unfold takeFraction? at h
  split at h
  · split at h
    · cases h
    · next ds rest' filled taken =>
      obtain ⟨rfl, rfl⟩ := Prod.mk.inj (Option.some.inj h)
      obtain ⟨same, digits, -⟩ := digits_eq_iff.mp taken
      have filled : ds ≠ [] := by
        rintro rfl
        exact filled rfl
      exact ⟨_, .some filled digits, by rw [same, List.cons_append]⟩
  · cases h
    exact ⟨[], .none, rfl⟩

theorem takeFraction?_of_fraction {ds l : List Char} (h : Fraction ds l)
    (stop : ∀ c ∈ rest.head?, c.isDigit = false) (point : rest.head? ≠ some '.') :
    takeFraction? (l ++ rest) = some (ds, rest) := by
  cases h with
  | none =>
    rw [List.nil_append]
    unfold takeFraction?
    split
    · exact absurd rfl point
    · rfl
  | some filled digits =>
    have taken := digits_eq_iff.mpr ⟨rfl, digits, stop⟩
    obtain ⟨c, ds, rfl⟩ := List.exists_cons_of_ne_nil filled
    rw [List.cons_append, takeFraction?, taken]

/-- A sign is taken if there is one. -/
theorem takeSign_eq {negative : Bool} {sign : List Char} (h : ExponentSign negative sign)
    {ds : List Char} (filled : ds ≠ []) (digits : AllDigits ds) :
    Text.takeSign (sign ++ (ds ++ rest)) = (negative, ds ++ rest) := by
  cases h with
  | plus | minus => rfl
  | none =>
    obtain ⟨c, ds, rfl⟩ := List.exists_cons_of_ne_nil filled
    have digit := digits c List.mem_cons_self
    rw [List.nil_append, List.cons_append]
    unfold Text.takeSign
    split
    · next h =>
      cases h
      cases digit
    · next h =>
      cases h
      cases digit
    · rfl

theorem sign_of_takeSign (s : List Char) :
    ∃ sign, ExponentSign (Text.takeSign s).1 sign ∧ s = sign ++ (Text.takeSign s).2 := by
  unfold Text.takeSign
  split
  · exact ⟨_, .plus, rfl⟩
  · exact ⟨_, .minus, rfl⟩
  · exact ⟨_, .none, rfl⟩

theorem exponent_of_takeExponent? {e : Option (Bool × List Char)}
    (h : takeExponent? s = some (e, rest)) : ∃ l, Exponent e l ∧ s = l ++ rest := by
  unfold takeExponent? at h
  split at h
  · next c s =>
    split at h
    · next mark =>
      obtain ⟨sign, signed, split⟩ := sign_of_takeSign s
      dsimp only at h
      split at h
      · cases h
      · next ds rest' filled taken =>
        obtain ⟨rfl, rfl⟩ := Prod.mk.inj (Option.some.inj h)
        obtain ⟨same, digits, -⟩ := digits_eq_iff.mp taken
        have filled : ds ≠ [] := by
          rintro rfl
          exact filled rfl
        refine ⟨_, .some mark signed filled digits, ?_⟩
        rw [split, same]
        simp
    · cases h
      exact ⟨[], .none, rfl⟩
  · cases h
    exact ⟨[], .none, rfl⟩

theorem takeExponent?_of_exponent {e : Option (Bool × List Char)} {l : List Char}
    (h : Exponent e l) (ends : Ends rest) : takeExponent? (l ++ rest) = some (e, rest) := by
  cases h with
  | none => exact takeExponent?_of_ends ends
  | some mark signed filled digits =>
    have stop : ∀ c ∈ rest.head?, c.isDigit = false := by
      intro c first
      have := ends c first
      simp_all [continuesNumber]
    have taken := digits_eq_iff.mpr ⟨rfl, digits, stop⟩
    rw [List.cons_append, List.append_assoc, takeExponent?, if_pos mark,
      takeSign_eq signed filled digits]
    obtain ⟨c, ds, rfl⟩ := List.exists_cons_of_ne_nil filled
    simp only [taken]

theorem unsigned_of_takeNumber? {negative : Bool} {n : Number}
    (h : takeNumber? negative s = some (n, rest)) :
    n.negative = negative ∧ ∃ l, n.Unsigned l ∧ s = l ++ rest := by
  simp only [takeNumber?, Option.bind_eq_bind, Option.bind_eq_some_iff, Option.pure_def,
    Option.some.injEq, Prod.mk.injEq, Prod.exists] at h
  obtain ⟨ds, s₁, whole, fs, s₂, fraction, e, s₃, exponent, rfl, rfl⟩ := h
  obtain ⟨rfl, digits, -⟩ := takeWhole?_eq_some.mp whole
  obtain ⟨l₁, behind, rfl⟩ := fraction_of_takeFraction? fraction
  obtain ⟨l₂, scaled, rfl⟩ := exponent_of_takeExponent? exponent
  exact ⟨rfl, _, .spells digits behind scaled, by simp⟩

/-- Nothing that stands behind the digits of a number is a digit. -/
theorem head_fraction {ds l : List Char} (h : Fraction ds l)
    (stop : ∀ c ∈ rest.head?, c.isDigit = false) : ∀ c ∈ (l ++ rest).head?, c.isDigit = false := by
  cases h with
  | none => exact stop
  | some => rintro _ ⟨⟩; rfl

theorem head_exponent {e : Option (Bool × List Char)} {l : List Char} (h : Exponent e l)
    (ends : Ends rest) : ∀ c ∈ (l ++ rest).head?, c.isDigit = false ∧ c ≠ '.' := by
  cases h with
  | none =>
    intro c first
    have := ends c first
    simp_all [continuesNumber]
  | some mark =>
    rintro _ ⟨⟩
    obtain rfl | rfl := mark <;> exact ⟨rfl, by decide⟩

theorem takeNumber?_of_unsigned {n : Number} {l : List Char} (h : n.Unsigned l)
    (ends : Ends rest) : takeNumber? n.negative (l ++ rest) = some (n, rest) := by
  obtain @⟨fraction, exponent, whole, behind, scaled⟩ := h
  have after := head_exponent scaled ends
  have stop : ∀ c ∈ (exponent ++ rest).head?, c.isDigit = false := fun c first => (after c first).1
  have point : (exponent ++ rest).head? ≠ some '.' := fun first => (after '.' first).2 rfl
  have first := takeWhole?_eq_some.mpr ⟨rfl, whole, head_fraction behind stop⟩
  have second := takeFraction?_of_fraction behind stop point
  have third := takeExponent?_of_exponent scaled ends
  simp only [List.append_assoc, takeNumber?, first, second, third, Option.bind_eq_bind,
    Option.bind_some, Option.pure_def]

end Numbers

/-! ### Tokens -/

section Tokens
variable {s rest : List Char} {t : Token} {ts : List Token} {c : Char}

theorem dropWord?_eq_some {word : List Char} : dropWord? word s = some rest ↔ s = word ++ rest := by
  fun_induction dropWord? word s with
  | case1 => simp [eq_comm]
  | case2 => simp
  | case3 w word s ih => simp [ih]
  | case4 w word c s other => simp [Ne.symm other]

def Token.isNumber : Token → Bool
  | .number _ => true
  | _ => false

/-- What is read as a token is a spelling of it. -/
theorem spells_of_takeToken? (h : takeToken? c s = some (t, rest)) :
    ∃ l, t.Spells l ∧ c :: s = l ++ rest := by
  have word {word : List Char} {w : Token} (spelled : w.word? = some (c :: word))
      (h : (dropWord? word s).map (w, ·) = some (t, rest)) :
      ∃ l, t.Spells l ∧ c :: s = l ++ rest := by
    obtain ⟨_, dropped, same⟩ := Option.map_eq_some_iff.mp h
    obtain ⟨rfl, rfl⟩ := Prod.mk.inj same
    exact ⟨_, .word spelled, by rw [dropWord?_eq_some.mp dropped, List.cons_append]⟩
  have mark {w : Token} (spelled : w.word? = some [c]) (h : some (w, s) = some (t, rest)) :
      ∃ l, t.Spells l ∧ c :: s = l ++ rest := word spelled (by simpa [dropWord?] using h)
  -- By the first character, in the order of the reader: marks, words, strings, numbers.
  by_cases isMark : c ∈ ['[', ']', '\x7b', '\x7d', ',', ':']
  · simp only [List.mem_cons, List.not_mem_nil, or_false] at isMark
    obtain rfl | rfl | rfl | rfl | rfl | rfl := isMark <;> exact mark rfl h
  by_cases letter : c ∈ ['n', 't', 'f']
  · simp only [List.mem_cons, List.not_mem_nil, or_false] at letter
    obtain rfl | rfl | rfl := letter <;> exact word rfl h
  by_cases quote : c = '"'
  · subst quote
    obtain ⟨⟨_, _⟩, taken, same⟩ := Option.map_eq_some_iff.mp h
    obtain ⟨rfl, rfl⟩ := Prod.mk.inj same
    obtain ⟨ps, l, pieces, rfl, rfl⟩ := pieces_of_takeString? taken
    exact ⟨_, .string pieces, by simp⟩
  by_cases minus : c = '-'
  · subst minus
    obtain ⟨⟨n, _⟩, taken, same⟩ := Option.map_eq_some_iff.mp h
    obtain ⟨rfl, rfl⟩ := Prod.mk.inj same
    obtain ⟨sign, l, number, rfl⟩ := unsigned_of_takeNumber? taken
    exact ⟨_, .negative sign number, (List.cons_append ..).symm⟩
  · simp only [List.mem_cons, List.not_mem_nil, or_false, not_or] at isMark letter
    simp only [takeToken?, isMark, letter, quote, minus, if_false] at h
    split at h
    · obtain ⟨⟨n, _⟩, taken, same⟩ := Option.map_eq_some_iff.mp h
      obtain ⟨rfl, rfl⟩ := Prod.mk.inj same
      obtain ⟨sign, l, number, same⟩ := unsigned_of_takeNumber? taken
      exact ⟨_, .positive sign number, same⟩
    · cases h

theorem not_blank_of_digit (digit : c.isDigit) : isBlank c = false := by
  have other {d : Char} (hd : d.isDigit = false) : c ≠ d := by
    rintro rfl
    exact Bool.false_ne_true (hd.symm.trans digit)
  simp [isBlank, @other ' ' rfl, @other '\n' rfl, @other '\t' rfl, @other '\r' rfl]

/-- What begins a number without a sign is a digit. -/
theorem Number.Unsigned.head {n : Number} {l : List Char} (h : n.Unsigned l) :
    ∃ c l', l = c :: l' ∧ c.isDigit := by
  obtain ⟨whole, -, -⟩ := h
  obtain ⟨c, ds, same⟩ := List.exists_cons_of_ne_nil whole.filled
  refine ⟨c, _, by rw [same, List.cons_append], whole.digits c ?_⟩
  rw [same]
  exact List.mem_cons_self

/-- A token that is spelled is read, unless it is a number that goes on behind. -/
theorem takeToken?_of_spells {l : List Char} (h : t.Spells l) (ends : t.isNumber → Ends rest) :
    ∃ c l', l = c :: l' ∧ isBlank c = false ∧ takeToken? c (l' ++ rest) = some (t, rest) := by
  cases h with
  | word word =>
    match t, word with
    | .openBracket, rfl | .closeBracket, rfl | .openBrace, rfl | .closeBrace, rfl | .comma, rfl
    | .colon, rfl | .null, rfl | .bool true, rfl | .bool false, rfl =>
      exact ⟨_, _, rfl, rfl, rfl⟩
  | @string ps l pieces =>
    refine ⟨_, _, rfl, rfl, ?_⟩
    rw [List.append_assoc, List.singleton_append]
    exact takeToken?_string (takeString?_of_pieces pieces [] rest)
  | @positive n l sign number =>
    obtain ⟨c, l', rfl, digit⟩ := number.head
    have taken := takeNumber?_of_unsigned number (ends rfl)
    rw [sign, List.cons_append] at taken
    exact ⟨c, l', rfl, not_blank_of_digit digit, takeToken?_digit digit taken⟩
  | @negative n l sign number =>
    have taken := takeNumber?_of_unsigned number (ends rfl)
    rw [sign] at taken
    exact ⟨_, _, rfl, rfl, takeToken?_negative taken⟩

/-- Only a number begins with what could make another number longer. -/
theorem Token.Spells.ends {l : List Char} (h : t.Spells l) (other : t.isNumber = false) :
    Ends (l ++ rest) := by
  cases h with
  | word word =>
    match t, word with
    | .openBracket, rfl | .closeBracket, rfl | .openBrace, rfl | .closeBrace, rfl | .comma, rfl
    | .colon, rfl | .null, rfl | .bool true, rfl | .bool false, rfl =>
      rintro _ ⟨⟩
      rfl
  | string =>
    rintro _ ⟨⟩
    rfl
  | positive | negative => cases other

theorem ends_of_blank (blank : isBlank c) : Ends (c :: s) := by
  rintro _ ⟨⟩
  simp only [isBlank, Bool.or_eq_true, decide_eq_true_eq] at blank
  obtain ((rfl | rfl) | rfl) | rfl := blank <;> rfl

/-! ### Texts -/

/-- No number stands directly behind another. -/
def Apart (ts : List Token) : Prop :=
  ts.IsChain fun a b => a.isNumber = false ∨ b.isNumber = false

theorem tokens?_space {space : List Char} (blank : Blank space) (s : List Char) :
    tokens? (space ++ s) = tokens? s := by
  induction space with
  | nil => rfl
  | cons c space ih =>
    rw [Blank, List.forall_mem_cons] at blank
    rw [List.cons_append, tokens?_blank blank.1, ih blank.2]

theorem Spaced.ends (h : Spaced ts s) (other : ∀ t ∈ ts.head?, t.isNumber = false) : Ends s := by
  cases h with
  | nil blank =>
    cases s with
    | nil => rintro _ ⟨⟩
    | cons c s => exact ends_of_blank (blank c List.mem_cons_self)
  | @cons t ts space l s blank first rest =>
    cases space with
    | nil => exact first.ends (other t rfl)
    | cons c space => exact ends_of_blank (blank c List.mem_cons_self)

/-- Tokens that are spelled are read, unless two numbers run into one another. -/
theorem Spaced.tokens?_eq (h : Spaced ts s) (apart : Apart ts) : tokens? s = some ts := by
  induction h with
  | nil blank =>
    have := tokens?_space blank []
    rwa [List.append_nil] at this
  | @cons t ts space l s blank first rest ih =>
    have ends : t.isNumber → Ends s := by
      intro number
      refine rest.ends fun u next => ?_
      cases ts with
      | nil => cases next
      | cons v ts =>
        obtain rfl := Option.some.inj next
        have := (List.isChain_cons_cons.mp apart).1
        simpa [number] using this
    obtain ⟨c, l', rfl, notBlank, taken⟩ := takeToken?_of_spells first ends
    rw [tokens?_space blank, List.cons_append, tokens?_cons notBlank, taken]
    change (tokens? s).map (t :: ·) = _
    rw [ih (List.IsChain.tail apart), Option.map_some]

theorem Spaced.blank (h : Spaced ts s) (blank : isBlank c) : Spaced ts (c :: s) := by
  have more {space : List Char} (h : Blank space) : Blank (c :: space) := by
    rw [Blank, List.forall_mem_cons]
    exact ⟨blank, h⟩
  cases h with
  | nil blanks => exact .nil (more blanks)
  | cons blanks first rest => exact .cons (more blanks) first rest

theorem spaced_of_tokens? (h : tokens? s = some ts) : Spaced ts s := by
  refine tokens?_induct (P := fun s ts => Spaced ts s) (.nil nofun) ?_ ?_ h
  · intro c s ts blank rest
    exact rest.blank blank
  · intro c s t s' ts blank first rest
    obtain ⟨l, spelled, same⟩ := spells_of_takeToken? first
    rw [same]
    exact @Spaced.cons t ts [] l s' nofun spelled rest

theorem Apart.cons (mark : t.isNumber = false) (h : Apart ts) : Apart (t :: ts) :=
  List.isChain_cons.mpr ⟨fun _ _ => .inl mark, h⟩

theorem Apart.append {us : List Token} (h : Apart ts) (k : Apart us)
    (mark : ∀ t ∈ us.head?, t.isNumber = false) : Apart (ts ++ us) :=
  List.isChain_append.mpr ⟨h, k, fun _ _ u first => .inr (mark u first)⟩

theorem apart_single (t : Token) : Apart [t] := List.isChain_singleton t

theorem furtherItems_mark (vs : List Value) :
    ∀ t ∈ (furtherItems vs).head?, t.isNumber = false := by
  cases vs with
  | nil => rintro _ ⟨⟩
  | cons v vs =>
    rintro _ ⟨⟩
    rfl

theorem furtherMembers_mark (ms : List (List Piece × Value)) :
    ∀ t ∈ (furtherMembers ms).head?, t.isNumber = false := by
  cases ms with
  | nil => rintro _ ⟨⟩
  | cons m ms =>
    rintro _ ⟨⟩
    rfl

mutual

/-- Two numbers of a value have a mark between them. -/
theorem apart_tokens : ∀ v : Value, Apart v.tokens
  | .null | .bool _ | .number _ | .string _ => by
    rw [Value.tokens]
    exact apart_single _
  | .array [] => by
    rw [Value.tokens]
    exact (apart_single _).cons rfl
  | .array (v :: vs) => by
    rw [Value.tokens]
    have items := (apart_tokens v).append (apart_furtherItems vs) (furtherItems_mark vs)
    exact (items.append (apart_single .closeBracket) (by rintro _ ⟨⟩; rfl)).cons rfl
  | .object [] => by
    rw [Value.tokens]
    exact (apart_single _).cons rfl
  | .object ((k, v) :: ms) => by
    rw [Value.tokens]
    have members := (apart_tokens v).append (apart_furtherMembers ms) (furtherMembers_mark ms)
    exact (((members.append (apart_single .closeBrace) (by rintro _ ⟨⟩; rfl)).cons rfl).cons
      rfl).cons rfl

theorem apart_furtherItems : ∀ vs : List Value, Apart (furtherItems vs)
  | [] => .nil
  | v :: vs => ((apart_tokens v).append (apart_furtherItems vs) (furtherItems_mark vs)).cons rfl

theorem apart_furtherMembers : ∀ ms : List (List Piece × Value), Apart (furtherMembers ms)
  | [] => .nil
  | (_, v) :: ms =>
    ((((apart_tokens v).append (apart_furtherMembers ms) (furtherMembers_mark ms)).cons rfl).cons
      rfl).cons rfl

end

/-- The reader reads a text as a value just if the text spells it. -/
theorem parse?_iff_spells {text : String} {v : Value} : parse? text = some v ↔ Spells text v :=
  parse?_eq_some.trans ⟨spaced_of_tokens?, fun h => h.tokens?_eq (apart_tokens v)⟩

end Tokens

/-! ### Integers -/

section Integers

theorem digitChar_digitValue {d : Char} (digit : d.isDigit) :
    Text.digitValue d < 10 ∧ (Text.digitValue d).digitChar = d := by
  have range : 48 ≤ d.toNat ∧ d.toNat ≤ 57 := by
    simpa [Char.isDigit, UInt32.le_iff_toNat_le] using digit
  have all : ∀ n < 10, n.digitChar = Char.ofNat (n + 48) := by decide
  have value : Text.digitValue d = d.toNat - 48 := rfl
  have same : d.toNat - 48 + 48 = d.toNat := by omega
  refine ⟨by omega, ?_⟩
  rw [value, all _ (by omega), same, Char.ofNat_toNat]

theorem digitsValue_append (ds : List Char) (d : Char) :
    Text.digitsValue (ds ++ [d]) = 10 * Text.digitsValue ds + Text.digitValue d := by
  simp [Text.digitsValue]

/-- A whole number has one literal only. -/
theorem toDigits_digitsValue {ds : List Char} (whole : Whole ds) :
    Nat.toDigits 10 (Text.digitsValue ds) = ds := by
  -- From the last digit on. What stands in front of it has no zero there either, unless nothing is
  -- left.
  induction ds using List.reverseRecOn with
  | nil => exact absurd rfl whole.filled
  | append_singleton ds d ih =>
    obtain ⟨small, char⟩ := digitChar_digitValue (whole.digits d (by simp))
    rw [digitsValue_append]
    by_cases empty : ds = []
    · subst empty
      have zero : Text.digitsValue [] = 0 := rfl
      rw [zero, Nat.mul_zero, Nat.zero_add, Nat.toDigits_of_lt_base small, char]
      rfl
    · have zero : ds.head? ≠ some '0' := by
        intro first
        have alone := whole.zero (by rw [List.head?_append_of_ne_nil _ empty, first])
        have length := congrArg List.length alone
        have := List.length_pos_iff.mpr empty
        rw [List.length_append, List.length_singleton, List.length_singleton] at length
        omega
      have earlier := ih ⟨empty, fun e member => whole.digits e (by simp [member]),
        fun first => absurd first zero⟩
      have pos : Text.digitsValue ds ≠ 0 := by
        intro none
        rw [none] at earlier
        exact zero (earlier ▸ rfl)
      rw [Nat.toDigits_of_base_le (by decide) (by omega), Nat.mul_add_div (by decide),
        Nat.mul_add_mod, Nat.div_eq_of_lt small, Nat.mod_eq_of_lt small, Nat.add_zero, earlier,
        char]

theorem literal_of_integer? {n : Number} {i : Int} (whole : Whole n.whole)
    (h : n.integer? = some i) : n = literal i := by
  have digits := toDigits_digitsValue whole
  obtain ⟨negative, ds, fraction, exponent⟩ := n
  unfold Number.integer? at h
  split at h
  · cases h
  · next plain =>
    simp only [Bool.or_eq_true, Bool.not_eq_true', not_or, Bool.not_eq_false, List.isEmpty_iff,
      Option.isSome_iff_ne_none, ne_eq, not_not] at plain
    obtain ⟨rfl, rfl⟩ := plain
    dsimp only at h digits
    split at h
    · next minus =>
      split at h
      · cases h
      · next nonzero =>
        obtain rfl := Option.some.inj h
        have below : -(Text.digitsValue ds : Int) < 0 := by omega
        rw [literal, Int.natAbs_neg, Int.natAbs_natCast, digits, minus, decide_eq_true below]
    · next plus =>
      obtain rfl := Option.some.inj h
      have above : ¬(Text.digitsValue ds : Int) < 0 := by omega
      rw [literal, Int.natAbs_natCast, digits, Bool.eq_false_of_not_eq_true plus,
        decide_eq_false above]

end Integers

/-! ### Values that a text holds -/

/-- All the tokens of a value can be spelled. -/
def Value.Spellable (v : Value) : Prop := ∀ t ∈ v.tokens, ∃ l, t.Spells l

theorem Spaced.spellable {ts : List Token} {s : List Char} (h : Spaced ts s) :
    ∀ t ∈ ts, ∃ l, t.Spells l := by
  induction h with
  | nil => exact nofun
  | cons _ first _ ih => exact List.forall_mem_cons.mpr ⟨⟨_, first⟩, ih⟩

theorem Spells.spellable {text : String} {v : Value} (h : Spells text v) : v.Spellable :=
  Spaced.spellable h

theorem mem_furtherMembers {k : List Piece} {v : Value} {ms : List (List Piece × Value)}
    (member : (k, v) ∈ ms) : v.tokens ⊆ furtherMembers ms := by
  induction ms with
  | nil => cases member
  | cons m ms ih =>
    obtain rfl | later := List.mem_cons.mp member
    · intro t here
      simp [furtherMembers, here]
    · intro t here
      simp [furtherMembers, ih later here]

theorem Value.Spellable.member {k : List Piece} {v : Value} {ms : List (List Piece × Value)}
    (h : (Value.object ms).Spellable) (member : (k, v) ∈ ms) : v.Spellable := by
  intro t here
  refine h t ?_
  cases ms with
  | nil => cases member
  | cons m ms =>
    rw [Value.tokens]
    obtain rfl | later := List.mem_cons.mp member
    · simp [here]
    · simp [mem_furtherMembers later here]

theorem Value.Spellable.whole {n : Number} (h : (Value.number n).Spellable) : Whole n.whole := by
  obtain ⟨l, spelled⟩ := h (.number n) (by simp [Value.tokens])
  cases spelled with
  | word word => cases word
  | positive _ number | negative _ number =>
    obtain ⟨whole, -, -⟩ := number
    exact whole

end Metering.Json
