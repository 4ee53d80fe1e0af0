import Metering.Proofs.Writing
import Mathlib.Data.List.Perm.Basic
/-!
The members of an object are found by their keys, so their order does not matter.
-/

namespace Metering.Json

section
variable {ms ns : List (List Piece × Value)}

theorem keyed?_cons {m : List Piece × Value} {l : List (String × Value)} :
    keyed? (m :: ms) = some l ↔
      ∃ k rest, text? m.1 = some k ∧ keyed? ms = some rest ∧ l = (k, m.2) :: rest := by
  rw [keyed?]
  cases text? m.1 <;> cases keyed? ms <;> simp [eq_comm]

/-- Members in another order have the same keys, in that order. -/
theorem keyed?_perm (h : ms.Perm ns) {l : List (String × Value)} (hl : keyed? ms = some l) :
    ∃ l', keyed? ns = some l' ∧ l.Perm l' := by
  induction h generalizing l with
  | nil => exact ⟨l, hl, .refl l⟩
  | cons m _ ih =>
    obtain ⟨k, rest, hk, hr, rfl⟩ := keyed?_cons.mp hl
    obtain ⟨rest', hr', perm⟩ := ih hr
    exact ⟨_, keyed?_cons.mpr ⟨k, rest', hk, hr', rfl⟩, perm.cons _⟩
  | swap m n ms =>
    obtain ⟨j, _, hj, tail, rfl⟩ := keyed?_cons.mp hl
    obtain ⟨k, rest, hk, hr, rfl⟩ := keyed?_cons.mp tail
    have swapped := keyed?_cons.mpr ⟨k, _, hk, keyed?_cons.mpr ⟨j, rest, hj, hr, rfl⟩, rfl⟩
    exact ⟨_, swapped, .swap ..⟩
  | trans _ _ ih₁ ih₂ =>
    obtain ⟨l₁, h₁, p₁⟩ := ih₁ hl
    obtain ⟨l₂, h₂, p₂⟩ := ih₂ h₁
    exact ⟨l₂, h₂, p₁.trans p₂⟩

theorem keyed?_none_perm (h : ms.Perm ns) (hn : keyed? ms = none) : keyed? ns = none := by
  by_contra given
  obtain ⟨l, hl⟩ := Option.ne_none_iff_exists'.mp given
  obtain ⟨_, hs, -⟩ := keyed?_perm h.symm hl
  simp [hn] at hs

theorem single?_perm {vs ws : List Value} (h : vs.Perm ws) : single? vs = single? ws := by
  match vs with
  | [] => rw [h.nil_eq]
  | [v] => rw [h.singleton_eq]
  | v :: w :: vs =>
    have length := h.length_eq
    match ws with
    | [] | [_] => simp at length
    | _ :: _ :: _ => rfl

theorem under_perm {ms ns : List (String × Value)} (h : ms.Perm ns) (name : String) :
    single? (under name ms) = single? (under name ns) :=
  single?_perm ((h.filter _).map _)

/-- A record is read from an object in whatever order its members stand. -/
theorem record?_perm (names : List String) (h : ms.Perm ns) :
    record? names (.object ms) = record? names (.object ns) := by
  simp only [record?]
  cases hl : keyed? ms with
  | none => rw [keyed?_none_perm h hl]
  | some l =>
    obtain ⟨l', hl', perm⟩ := keyed?_perm h hl
    rw [hl']
    exact congrArg (names.mapM ·) (funext fun n => under_perm perm n)

/-- The keys of members that are written are those they were meant to have. -/
theorem keyed?_membersOf (ms : List (String × String)) :
    keyed? (membersOf ms) = some (ms.map fun m => (m.1, valueOf m.2)) := by
  induction ms with
  | nil => rfl
  | cons m ms ih => exact keyed?_cons.mpr ⟨_, _, text?_pieces m.1, ih, rfl⟩

theorem record?_membersOf (names : List String) (ms : List (String × String)) :
    record? names (.object (membersOf ms)) =
      names.mapM fun n => single? (under n (ms.map fun m => (m.1, valueOf m.2))) := by
  rw [record?, keyed?_membersOf]
  rfl

end

end Metering.Json
