import Metering.Json.Record
import Mathlib.Tactic.Common
/-!
Every value has one sequence of tokens, and the reader gives a value back exactly for those. What
it keeps while it reads, the open containers and what it expects, stands for the tokens read so
far.
-/

namespace Metering.Json

mutual

def Value.tokens : Value → List Token
  | .null => [.null]
  | .bool b => [.bool b]
  | .number n => [.number n]
  | .string s => [.string s]
  | .array [] => [.openBracket, .closeBracket]
  | .array (v :: vs) => .openBracket :: (v.tokens ++ furtherItems vs ++ [.closeBracket])
  | .object [] => [.openBrace, .closeBrace]
  | .object ((k, v) :: ms) =>
    .openBrace :: .string k :: .colon :: (v.tokens ++ furtherMembers ms ++ [.closeBrace])

/-- The items of an array after its first one. -/
def furtherItems : List Value → List Token
  | [] => []
  | v :: vs => .comma :: (v.tokens ++ furtherItems vs)

/-- The members of an object after its first one. -/
def furtherMembers : List (List Piece × Value) → List Token
  | [] => []
  | (k, v) :: ms => .comma :: .string k :: .colon :: (v.tokens ++ furtherMembers ms)

end

/-! ### The tokens of a value are read as that value -/

/-- The tokens of a value do not begin with the end of an array. -/
theorem advance_firstItem (outer : List Frame) (v : Value) :
    ∃ t ts, v.tokens = t :: ts ∧
      advance outer .firstItem t = advance (.array [] :: outer) .value t := by
  match v with
  | .null | .bool _ | .number _ | .string _ => exact ⟨_, _, by rw [Value.tokens], rfl⟩
  | .array [] | .array (_ :: _) => exact ⟨_, _, by rw [Value.tokens], rfl⟩
  | .object [] | .object ((_, _) :: _) => exact ⟨_, _, by rw [Value.tokens], rfl⟩

theorem build_firstItem (outer : List Frame) (v : Value) (ts : List Token) :
    build outer .firstItem (v.tokens ++ ts) =
      build (.array [] :: outer) .value (v.tokens ++ ts) := by
  obtain ⟨t, _, tokens, first⟩ := advance_firstItem outer v
  rw [tokens, List.cons_append, build, build, first]

mutual

theorem build_tokens (outer : List Frame) (ts : List Token) :
    ∀ v : Value, build outer .value (v.tokens ++ ts) = build outer (.after v) ts
  | .null | .bool _ | .number _ | .string _ => by
    rw [Value.tokens]
    rfl
  | .array [] => by
    rw [Value.tokens]
    rfl
  | .array (v :: vs) => by
    have first := build_firstItem outer v (furtherItems vs ++ .closeBracket :: ts)
    rw [build_tokens _ _ v, build_furtherItems] at first
    rw [Value.tokens]
    simpa [build, advance, beginValue] using first
  | .object [] => by
    rw [Value.tokens]
    rfl
  | .object ((k, v) :: ms) => by
    have first := build_tokens (.object [] k :: outer) (furtherMembers ms ++ .closeBrace :: ts) v
    rw [build_furtherMembers] at first
    rw [Value.tokens]
    simpa [build, advance, beginValue] using first

theorem build_furtherItems (outer : List Frame) (items : List Value) (v : Value)
    (ts : List Token) :
    ∀ vs : List Value, build (.array items :: outer) (.after v)
      (furtherItems vs ++ .closeBracket :: ts) =
        build outer (.after (.array ((v :: items).reverse ++ vs))) ts
  | [] => by simp [furtherItems, build, advance]
  | w :: vs => by
    have further := build_tokens (.array (v :: items) :: outer)
      (furtherItems vs ++ .closeBracket :: ts) w
    rw [build_furtherItems] at further
    simpa [furtherItems, build, advance] using further

theorem build_furtherMembers (outer : List Frame) (members : List (List Piece × Value))
    (k : List Piece) (v : Value) (ts : List Token) :
    ∀ ms : List (List Piece × Value), build (.object members k :: outer) (.after v)
      (furtherMembers ms ++ .closeBrace :: ts) =
        build outer (.after (.object (((k, v) :: members).reverse ++ ms))) ts
  | [] => by simp [furtherMembers, build, advance]
  | (l, w) :: ms => by
    have further := build_tokens (.object ((k, v) :: members) l :: outer)
      (furtherMembers ms ++ .closeBrace :: ts) w
    rw [build_furtherMembers] at further
    simpa [furtherMembers, build, advance] using further

end

/-! ### Nothing else is read as that value -/

section
variable (vs : List Value) (ms : List (List Piece × Value))

theorem furtherItems_append (ws : List Value) :
    furtherItems (vs ++ ws) = furtherItems vs ++ furtherItems ws := by
  induction vs with
  | nil => rfl
  | cons v vs ih => simp [furtherItems, ih]

theorem furtherMembers_append (ns : List (List Piece × Value)) :
    furtherMembers (ms ++ ns) = furtherMembers ms ++ furtherMembers ns := by
  induction ms with
  | nil => rfl
  | cons m ms ih => simp [furtherMembers, ih]

end

/-- The tokens of an array that is still open, up to the item that comes next. -/
def openItems : List Value → List Token
  | [] => [.openBracket]
  | v :: vs => .openBracket :: (v.tokens ++ furtherItems vs ++ [.comma])

/-- The tokens of an object that is still open, up to the key that comes next. -/
def openMembers : List (List Piece × Value) → List Token
  | [] => [.openBrace]
  | (k, v) :: ms =>
    .openBrace :: .string k :: .colon :: (v.tokens ++ furtherMembers ms ++ [.comma])

theorem openItems_append (vs : List Value) (v : Value) :
    (Value.array (vs ++ [v])).tokens = openItems vs ++ v.tokens ++ [.closeBracket] ∧
      openItems (vs ++ [v]) = openItems vs ++ v.tokens ++ [.comma] := by
  cases vs <;> simp [openItems, Value.tokens, furtherItems, furtherItems_append]

theorem openMembers_append (ms : List (List Piece × Value)) (k : List Piece) (v : Value) :
    (Value.object (ms ++ [(k, v)])).tokens =
        openMembers ms ++ .string k :: .colon :: v.tokens ++ [.closeBrace] ∧
      openMembers (ms ++ [(k, v)]) =
        openMembers ms ++ .string k :: .colon :: v.tokens ++ [.comma] := by
  cases ms <;> simp [openMembers, Value.tokens, furtherMembers, furtherMembers_append]

/-- The tokens that led into an open container. -/
def Frame.tokens : Frame → List Token
  | .array items => openItems items.reverse
  | .object ms k => openMembers ms.reverse ++ [.string k, .colon]

/-- The tokens that were read of what comes next. -/
def Expect.tokens : Expect → List Token
  | .value => []
  | .firstItem => [.openBracket]
  | .firstKey => [.openBrace]
  | .key ms => openMembers ms.reverse
  | .colon ms k => openMembers ms.reverse ++ [.string k]
  | .after v => v.tokens

def readSoFar (outer : List Frame) (expect : Expect) : List Token :=
  outer.reverse.flatMap Frame.tokens ++ expect.tokens

theorem beginValue_readSoFar {outer outer' : List Frame} {expect : Expect} {t : Token}
    (h : beginValue outer t = some (expect, outer')) :
    readSoFar outer' expect = outer.reverse.flatMap Frame.tokens ++ [t] := by
  cases t <;> cases h <;> rfl

/-- One token further, one more token was read. -/
theorem advance_readSoFar {outer outer' : List Frame} {expect expect' : Expect} {t : Token}
    (h : advance outer expect t = some (expect', outer')) :
    readSoFar outer' expect' = readSoFar outer expect ++ [t] := by
  fun_cases advance outer expect t with
  | case1 => simpa [readSoFar, Expect.tokens] using beginValue_readSoFar h
  | case2 =>
    cases h
    simp [readSoFar, Expect.tokens, Value.tokens]
  | case3 _ notEnd =>
    have begun : beginValue (.array [] :: outer) t = some (expect', outer') := by
      simpa [advance] using h
    have := beginValue_readSoFar begun
    simpa [readSoFar, Expect.tokens, Frame.tokens, openItems] using this
  | case4 | case5 | case7 | case9 =>
    cases h
    simp [readSoFar, Expect.tokens, Value.tokens, Frame.tokens, openMembers]
  | case6 | case8 | case10 | case15 => simp_all [advance]
  | case11 v items outer | case12 v items outer =>
    cases h
    simp [readSoFar, Expect.tokens, Frame.tokens, openItems_append items.reverse v]
  | case13 v ms k outer | case14 v ms k outer =>
    cases h
    simp [readSoFar, Expect.tokens, Frame.tokens, openMembers_append ms.reverse k v]

theorem build_readSoFar {outer : List Frame} {expect : Expect} {ts : List Token} {v : Value}
    (h : build outer expect ts = some v) : v.tokens = readSoFar outer expect ++ ts := by
  induction ts generalizing outer expect with
  | nil =>
    unfold build at h
    split at h
    · cases h
      simp [readSoFar, Expect.tokens]
    · cases h
  | cons t ts ih =>
    unfold build at h
    split at h
    · next further =>
      rw [ih h, advance_readSoFar further]
      simp
    · cases h

/-- Exactly the tokens of a value are read as it. -/
theorem ofTokens?_eq_some {ts : List Token} {v : Value} :
    ofTokens? ts = some v ↔ ts = v.tokens := by
  constructor
  · intro h
    exact (build_readSoFar h).symm
  · rintro rfl
    simpa [ofTokens?, build] using build_tokens [] [] v

theorem parse?_eq_some {s : String} {v : Value} :
    parse? s = some v ↔ tokens? s.toList = some v.tokens := by
  simp [parse?, Option.bind_eq_some_iff, ofTokens?_eq_some]

end Metering.Json
