import Metering.Json.Token
import Mathlib.Data.List.TakeWhile
/-!
The scanner without its fuel: a text is read token by token from its beginning. So a text may be
scanned in two parts, unless a number at the end of the first part goes on in the second.
-/

namespace Metering.Json

/-! ### What a token leaves of the text -/

section Strings
variable {done : List Piece} {s : List Char}

@[simp]
theorem takeString?_quote : takeString? done ('"' :: s) = some (done.reverse, s) := by
  rw [takeString?.eq_def]
  rfl

theorem takeString?_escaped {e c : Char} (h : escaped? e = some c) :
    takeString? done ('\\' :: e :: s) = takeString? (.char c :: done) s := by
  have noUnit : e ≠ 'u' := by
    rintro rfl
    cases h
  rw [takeString?.eq_def]
  simp [noUnit, h]

theorem takeString?_unit {a b c d : Char} {n : Nat} (h : codeUnit? a b c d = some n) :
    takeString? done ('\\' :: 'u' :: a :: b :: c :: d :: s) =
      takeString? (.unit n :: done) s := by
  rw [takeString?.eq_def]
  simp [h]

theorem takeString?_plain {c : Char} (quote : c ≠ '"') (escape : c ≠ '\\')
    (control : ¬c.toNat < 0x20) : takeString? done (c :: s) = takeString? (.char c :: done) s := by
  rw [takeString?.eq_def]
  simp [quote, escape, control]

end Strings

section Lengths
variable {s rest : List Char}

theorem digits_length (s : List Char) : (Text.digits s).2.length ≤ s.length :=
  (List.dropWhile_sublist _).length_le

theorem takeString?_length {done pieces : List Piece}
    (h : takeString? done s = some (pieces, rest)) : rest.length ≤ s.length := by
  fun_induction takeString? done s with
  | case1 | case4 | case6 | case7 | case8 => cases h
  | case2 => grind
  | case3 _ _ _ _ _ _ _ _ _ ih | case5 _ _ _ _ _ _ _ ih | case9 _ _ _ _ _ _ ih =>
    have := ih h
    simp only [List.length_cons]
    omega

theorem takeFraction?_length {ds : List Char} (h : takeFraction? s = some (ds, rest)) :
    rest.length ≤ s.length := by
  have := digits_length s.tail
  unfold takeFraction? at h
  grind

theorem takeSign_length (s : List Char) : (Text.takeSign s).2.length ≤ s.length := by
  unfold Text.takeSign
  split <;> simp

theorem takeExponent?_length {e : Option (Bool × List Char)}
    (h : takeExponent? s = some (e, rest)) : rest.length ≤ s.length := by
  have := takeSign_length s.tail
  have := digits_length (Text.takeSign s.tail).2
  unfold takeExponent? at h
  grind

theorem dropWord?_length {word : List Char} (h : dropWord? word s = some rest) :
    rest.length ≤ s.length := by
  fun_induction dropWord? word s with
  | case1 | case2 | case3 | case4 => grind

/-- A number has a first digit, so what it leaves is shorter than what it was read from. -/
theorem takeWhole?_length_lt {ds : List Char} (h : takeWhole? s = some (ds, rest)) :
    rest.length < s.length := by
  have parts : Text.digits s = (ds, rest) ∧ ds ≠ [] := by
    unfold takeWhole? at h
    grind
  obtain ⟨rfl, rfl⟩ := Prod.mk.inj parts.1
  have := congrArg List.length (List.takeWhile_append_dropWhile (p := Char.isDigit) (l := s))
  have first := List.length_pos_iff.mpr parts.2
  rw [List.length_append] at this
  exact this ▸ Nat.lt_add_of_pos_left first

theorem takeNumber?_length_lt {negative : Bool} {n : Number}
    (h : takeNumber? negative s = some (n, rest)) : rest.length < s.length := by
  simp only [takeNumber?, Option.bind_eq_bind, Option.bind_eq_some_iff, Option.pure_def,
    Option.some.injEq, Prod.mk.injEq, Prod.exists] at h
  obtain ⟨_, _, whole, _, _, fraction, _, _, exponent, _, rfl⟩ := h
  have := takeWhole?_length_lt whole
  have := takeFraction?_length fraction
  have := takeExponent?_length exponent
  omega

/-- The ways a token may be read. A mark and a word are read in the same way whatever follows. -/
theorem takeToken?_cases {c : Char} {t : Token} (h : takeToken? c s = some (t, rest)) :
    (rest = s ∧ ∀ s, takeToken? c s = some (t, s)) ∨
    (∃ word, dropWord? word s = some rest ∧
      ∀ s, takeToken? c s = (dropWord? word s).map (t, ·)) ∨
    (∃ pieces, c = '"' ∧ t = .string pieces ∧ takeString? [] s = some (pieces, rest)) ∨
    (∃ n, c = '-' ∧ t = .number n ∧ takeNumber? true s = some (n, rest)) ∨
    ∃ n, c.isDigit ∧ t = .number n ∧ takeNumber? false (c :: s) = some (n, rest) := by
  by_cases mark : c ∈ ['[', ']', '\x7b', '\x7d', ',', ':']
  · simp only [List.mem_cons, List.not_mem_nil, or_false] at mark
    left
    rcases mark with rfl | rfl | rfl | rfl | rfl | rfl <;> simp_all [takeToken?]
  by_cases letter : c ∈ ['n', 't', 'f']
  · simp only [List.mem_cons, List.not_mem_nil, or_false] at letter
    right; left
    rcases letter with rfl | rfl | rfl
    all_goals
      obtain ⟨_, hw, hr⟩ := Option.map_eq_some_iff.mp h
      cases hr
      exact ⟨_, hw, fun _ => rfl⟩
  · simp only [List.mem_cons, List.not_mem_nil, or_false, not_or] at mark letter
    right; right
    simp only [takeToken?, mark, letter, if_false] at h
    split at h
    · obtain ⟨_, string, hr⟩ := Option.map_eq_some_iff.mp h
      cases hr
      exact .inl ⟨_, ‹_›, rfl, string⟩
    split at h
    · obtain ⟨_, number, hr⟩ := Option.map_eq_some_iff.mp h
      cases hr
      exact .inr (.inl ⟨_, ‹_›, rfl, number⟩)
    · split at h
      · obtain ⟨_, number, hr⟩ := Option.map_eq_some_iff.mp h
        cases hr
        exact .inr (.inr ⟨_, ‹_›, rfl, number⟩)
      · cases h

/-- A token takes at least the character it begins with. -/
theorem takeToken?_length {c : Char} {t : Token} (h : takeToken? c s = some (t, rest)) :
    rest.length ≤ s.length := by
  obtain ⟨rfl, -⟩ | ⟨word, hw, -⟩ | ⟨pieces, -, -, hp⟩ | ⟨n, -, -, hn⟩ | ⟨n, -, -, hn⟩ :=
    takeToken?_cases h
  · exact Nat.le_refl _
  · exact dropWord?_length hw
  · exact takeString?_length hp
  · exact (takeNumber?_length_lt hn).le
  · exact Nat.le_of_lt_succ (takeNumber?_length_lt hn)

end Lengths

/-! ### Two parts of a text -/

/-- Whether a number may go on with the character. -/
def continuesNumber (c : Char) : Bool := c.isDigit || c = '.' || c = 'e' || c = 'E'

/-- No number goes on in the text. -/
def Ends (s : List Char) : Prop := ∀ c ∈ s.head?, continuesNumber c = false

theorem Ends.head {c : Char} {s : List Char} (h : Ends (c :: s)) :
    c.isDigit = false ∧ c ≠ '.' ∧ c ≠ 'e' ∧ c ≠ 'E' := by
  have := h c rfl
  simp_all [continuesNumber]

section Parts
variable {s rest more : List Char}

theorem digits_append {ds : List Char} (h : Text.digits s = (ds, rest))
    (hm : rest = [] → Ends more) : Text.digits (s ++ more) = (ds, rest ++ more) := by
  obtain ⟨rfl, rfl⟩ := Prod.mk.inj h
  induction s with
  | nil =>
    cases more with
    | nil => rfl
    | cons c more =>
      have : continuesNumber c = false := hm rfl c rfl
      have : c.isDigit = false := by simp_all [continuesNumber]
      simp [Text.digits, this]
  | cons c s ih =>
    by_cases hc : c.isDigit
    · simp_all [Text.digits]
    · simp [Text.digits, hc]

theorem takeString?_append {done pieces : List Piece} (more : List Char)
    (h : takeString? done s = some (pieces, rest)) :
    takeString? done (s ++ more) = some (pieces, rest ++ more) := by
  fun_induction takeString? done s with
  | case1 | case4 | case6 | case7 | case8 => cases h
  | case2 => simp_all
  | case3 _ _ _ _ _ _ _ unit _ ih => simpa [takeString?_unit unit] using ih h
  | case5 _ _ _ _ _ escaped _ ih => simpa [takeString?_escaped escaped] using ih h
  | case9 _ _ _ quote escape control ih => simpa [takeString?_plain quote escape control] using ih h

theorem takeWhole?_append {ds : List Char} (h : takeWhole? s = some (ds, rest))
    (hm : rest = [] → Ends more) : takeWhole? (s ++ more) = some (ds, rest ++ more) := by
  have := @digits_append s rest more
  unfold takeWhole? at h ⊢
  grind

theorem takeFraction?_of_ends (h : Ends s) : takeFraction? s = some ([], s) := by
  cases s with
  | nil => rfl
  | cons c s => simp [takeFraction?, h.head]

theorem takeFraction?_append {ds : List Char} (h : takeFraction? s = some (ds, rest))
    (hm : rest = [] → Ends more) : takeFraction? (s ++ more) = some (ds, rest ++ more) := by
  cases s with
  | nil =>
    cases h
    exact takeFraction?_of_ends (hm rfl)
  | cons c s =>
    have := @digits_append s rest more
    unfold takeFraction? at h ⊢
    grind

theorem takeSign_append (h : s ≠ []) :
    Text.takeSign (s ++ more) = ((Text.takeSign s).1, (Text.takeSign s).2 ++ more) := by
  obtain ⟨c, s, rfl⟩ := List.exists_cons_of_ne_nil h
  unfold Text.takeSign
  grind

theorem takeExponent?_of_ends (h : Ends s) : takeExponent? s = some (none, s) := by
  cases s with
  | nil => rfl
  | cons c s => simp [takeExponent?, h.head]

theorem takeExponent?_append {e : Option (Bool × List Char)}
    (h : takeExponent? s = some (e, rest)) (hm : rest = [] → Ends more) :
    takeExponent? (s ++ more) = some (e, rest ++ more) := by
  cases s with
  | nil =>
    cases h
    exact takeExponent?_of_ends (hm rfl)
  | cons c s =>
    by_cases mark : c = 'e' ∨ c = 'E'
    · have rest_ne : s ≠ [] := by
        rintro rfl
        simp [takeExponent?, mark, Text.takeSign, Text.digits] at h
      have := @digits_append (Text.takeSign s).2 rest more
      simp only [takeExponent?, mark, if_true, List.cons_append, takeSign_append rest_ne] at h ⊢
      grind
    · simp only [takeExponent?, mark, if_false, Option.some.injEq, Prod.mk.injEq] at h
      simp [takeExponent?, mark, ← h.1, ← h.2]

theorem takeNumber?_append {negative : Bool} {n : Number}
    (h : takeNumber? negative s = some (n, rest)) (hm : rest = [] → Ends more) :
    takeNumber? negative (s ++ more) = some (n, rest ++ more) := by
  simp only [takeNumber?, Option.bind_eq_bind, Option.bind_eq_some_iff, Option.pure_def,
    Option.some.injEq, Prod.mk.injEq, Prod.exists] at h ⊢
  obtain ⟨ds, s₁, whole, fs, s₂, fraction, e, s₃, exponent, rfl, rfl⟩ := h
  have ends₂ : s₂ = [] → Ends more := by
    rintro rfl
    exact hm (List.eq_nil_of_length_eq_zero (Nat.le_zero.mp (takeExponent?_length exponent)))
  have ends₁ : s₁ = [] → Ends more := by
    rintro rfl
    exact ends₂ (List.eq_nil_of_length_eq_zero (Nat.le_zero.mp (takeFraction?_length fraction)))
  exact ⟨ds, _, takeWhole?_append whole ends₁, fs, _, takeFraction?_append fraction ends₂, e, _,
    takeExponent?_append exponent hm, rfl, rfl⟩

theorem dropWord?_append {word : List Char} (more : List Char)
    (h : dropWord? word s = some rest) : dropWord? word (s ++ more) = some (rest ++ more) := by
  fun_induction dropWord? word s with
  | case1 | case2 | case3 | case4 => grind [dropWord?]

theorem takeToken?_string {pieces : List Piece} (h : takeString? [] s = some (pieces, rest)) :
    takeToken? '"' s = some (.string pieces, rest) := by
  simp [takeToken?, h]

theorem takeToken?_negative {n : Number} (h : takeNumber? true s = some (n, rest)) :
    takeToken? '-' s = some (.number n, rest) := by
  simp [takeToken?, h]

theorem takeToken?_digit {c : Char} {n : Number} (digit : c.isDigit)
    (h : takeNumber? false (c :: s) = some (n, rest)) :
    takeToken? c s = some (.number n, rest) := by
  have other : ∀ d : Char, d.isDigit = false → c ≠ d := by
    rintro d hd rfl
    simp [hd] at digit
  simp [takeToken?, other _ (show ('[').isDigit = false by decide),
    other _ (show (']').isDigit = false by decide),
    other _ (show ('\x7b').isDigit = false by decide),
    other _ (show ('\x7d').isDigit = false by decide),
    other _ (show (',').isDigit = false by decide),
    other _ (show (':').isDigit = false by decide),
    other _ (show ('"').isDigit = false by decide),
    other _ (show ('-').isDigit = false by decide), digit, h]

theorem takeToken?_append {c : Char} {t : Token} (h : takeToken? c s = some (t, rest))
    (hm : rest = [] → Ends more) : takeToken? c (s ++ more) = some (t, rest ++ more) := by
  obtain ⟨rfl, mark⟩ | ⟨word, hw, letter⟩ | ⟨pieces, rfl, rfl, hp⟩ | ⟨n, rfl, rfl, hn⟩ |
    ⟨n, digit, rfl, hn⟩ := takeToken?_cases h
  · exact mark _
  · rw [letter, dropWord?_append more hw]
    rfl
  · exact takeToken?_string (takeString?_append more hp)
  · exact takeToken?_negative (takeNumber?_append hn hm)
  · exact takeToken?_digit digit (takeNumber?_append hn hm)

/-! ### The whole text -/

theorem scan_done (done : List Token) (n : Nat) (s : List Char) :
    scan done n s = (scan [] n s).map (done.reverse ++ ·) := by
  induction n generalizing done s with
  | zero => cases s <;> simp [scan]
  | succ n ih =>
    cases s with
    | nil => simp [scan]
    | cons c s =>
      simp only [scan]
      split
      · exact ih done s
      · cases takeToken? c s with
        | none => rfl
        | some r =>
          dsimp only
          rw [ih (r.1 :: done), ih [r.1], Option.map_map]
          simp [Function.comp_def]

/-- Fuel beyond the length of the text changes nothing. -/
theorem scan_fuel (done : List Token) {n m : Nat} (hn : s.length ≤ n) (hm : s.length ≤ m) :
    scan done n s = scan done m s := by
  induction n generalizing done s m with
  | zero => cases List.eq_nil_of_length_eq_zero (Nat.le_zero.mp hn); simp [scan]
  | succ n ih =>
    cases s with
    | nil => simp [scan]
    | cons c s =>
      obtain ⟨m, rfl⟩ := Nat.exists_eq_add_of_lt hm
      simp only [List.length_cons, Nat.add_le_add_iff_right] at hn hm
      simp only [scan]
      split
      · exact ih done hn (by omega)
      · cases h : takeToken? c s with
        | none => rfl
        | some r =>
          have := takeToken?_length h
          exact ih _ (by omega) (by omega)

@[simp]
theorem tokens?_nil : tokens? [] = some [] := rfl

theorem tokens?_blank {c : Char} (h : isBlank c) : tokens? (c :: s) = tokens? s := by
  simp [tokens?, scan, h]

theorem tokens?_cons {c : Char} (h : isBlank c = false) :
    tokens? (c :: s) = (takeToken? c s).bind fun (t, rest) => (tokens? rest).map (t :: ·) := by
  simp only [tokens?, List.length_cons, scan, h, Bool.false_eq_true, if_false]
  cases ht : takeToken? c s with
  | none => rfl
  | some r =>
    dsimp only
    rw [scan_fuel _ (takeToken?_length ht) (Nat.le_refl _), scan_done]
    simp

/-- What holds of a text that is split into tokens is shown blank by blank and token by token, from
the end. -/
theorem tokens?_induct {P : List Char → List Token → Prop} (nil : P [] [])
    (blank : ∀ c s ts, isBlank c = true → P s ts → P (c :: s) ts)
    (token : ∀ c s t rest ts, isBlank c = false → takeToken? c s = some (t, rest) → P rest ts →
      P (c :: s) (t :: ts)) {ts : List Token} (h : tokens? s = some ts) : P s ts := by
  -- A token leaves less of the text, though not the tail of it.
  induction hn : s.length using Nat.strong_induction_on generalizing s ts with
  | _ n ih =>
    subst hn
    cases s with
    | nil =>
      obtain rfl := Option.some.inj h
      exact nil
    | cons c s =>
      cases blanks : isBlank c with
      | true =>
        rw [tokens?_blank blanks] at h
        exact blank c s ts blanks (ih _ (Nat.lt_succ_self _) h rfl)
      | false =>
        rw [tokens?_cons blanks] at h
        obtain ⟨⟨t, rest⟩, first, h⟩ := Option.bind_eq_some_iff.mp h
        obtain ⟨ts, later, rfl⟩ := Option.map_eq_some_iff.mp h
        have shorter := Nat.lt_succ_of_le (takeToken?_length first)
        exact token c s t rest ts blanks first (ih _ shorter later rfl)

/-- A text may be cut in two wherever no number is cut. -/
theorem tokens?_append {ts : List Token} (h : tokens? s = some ts) (hm : Ends more) :
    tokens? (s ++ more) = (tokens? more).map (ts ++ ·) := by
  refine tokens?_induct (P := fun s ts => tokens? (s ++ more) = (tokens? more).map (ts ++ ·))
    ?_ ?_ ?_ h
  · simp
  · intro c s ts blank rest
    rw [List.cons_append, tokens?_blank blank, rest]
  · intro c s t s' ts blank first rest
    rw [List.cons_append, tokens?_cons blank, takeToken?_append first fun _ => hm]
    simp only [Option.bind_some]
    rw [rest, Option.map_map]
    rfl

end Parts

end Metering.Json
