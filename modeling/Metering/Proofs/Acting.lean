import Metering.Proofs.Keeping
/-!
Programs that keep to themselves. A quiet program is a function of the application's state: what it
answers and what it leaves can be said without a rig, and to run it changes nothing else.
-/

namespace Metering

variable {S α : Type}

/-- What a program answers and what it makes of the application's state, if it neither looks at the
rig nor calls it. -/
def Program.act : Program S α → S → Option (α × S)
  | .done a, s => some (a, s)
  | .update f next, s => (next (f s).1).act (f s).2
  | .look _ _, _ => none
  | .note _ next, s => next.act s
  | .call _ _, _ => none

/-- The lines that such a program writes, the latest first. -/
def Program.lines : Program S α → S → List String
  | .done _, _ => []
  | .update f next, s => (next (f s).1).lines (f s).2
  | .look _ _, _ => []
  | .note text next, s => next.lines s ++ [text]
  | .call _ _, _ => []

/-- A quiet program has run: the application has another state, and lines are in the journal. -/
def World.acted (w : World S) (s : S) (lines : List String) : World S :=
  { w with app := s, journal := lines.map .note ++ w.journal }

@[simp]
theorem World.acted_app (w : World S) (s : S) (lines : List String) : (w.acted s lines).app = s :=
  rfl

@[simp]
theorem World.acted_rig (w : World S) (s : S) (lines : List String) :
    (w.acted s lines).rig = w.rig := rfl

@[simp]
theorem World.acted_journal (w : World S) (s : S) (lines : List String) :
    (w.acted s lines).journal = lines.map .note ++ w.journal := rfl

theorem Program.Quiet.acts {p : Program S α} (q : p.Quiet) (s : S) :
    ∃ a s', p.act s = some (a, s') := by
  induction p generalizing s with
  | done a => exact ⟨a, s, rfl⟩
  | update f next ih => exact ih _ (q _) _
  | look f next ih => exact q.elim
  | note text next ih => exact ih q s
  | call c next ih => exact q.elim

theorem Program.run_of_act (again : {β : Type} → Call β → Run S β) {p : Program S α}
    {w : World S} {a : α} {s : S} (acts : p.act w.app = some (a, s)) :
    p.run again w = .ok (a, w.acted s (p.lines w.app)) := by
  induction p generalizing w with
  | done b =>
    obtain ⟨rfl, rfl⟩ : b = a ∧ w.app = s := by simpa [Program.act] using acts
    rfl
  | update f next ih => exact ih _ (w := { w with app := (f w.app).2 }) acts
  | look f next ih => cases acts
  | note text next ih =>
    refine (ih (w := w.record (.note text)) acts).trans ?_
    simp [World.acted, World.record, Program.lines]
  | call c next ih => cases acts

/-- A quiet program comes to its end, and the rig is as it was. -/
theorem Program.Quiet.settles {again : {β : Type} → Call β → Run S β} {p : Program S α}
    (quiet : p.Quiet) (w : World S) : Yields (p.run again) w fun _ w' => w'.rig = w.rig := by
  obtain ⟨a, s, acts⟩ := quiet.acts w.app
  exact ⟨a, _, Program.run_of_act again acts, rfl⟩

theorem Yields.ensures {m : Run S α} {w : World S} {Q : α → World S → Prop} (h : Yields m w Q) :
    Ensures m w Q := by
  obtain ⟨a, w', run, holds⟩ := h
  intro b v run'
  obtain ⟨rfl, rfl⟩ : a = b ∧ w' = v := by simpa using run.symm.trans run'
  exact holds

end Metering
