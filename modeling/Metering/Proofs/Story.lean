import Metering.Proofs.Run
/-!
Stories told by a reference. A reference says what each deed of an application makes of a state of
its own, and which level the deed lets a listener be told. The story of a run follows the reference
if the rig stood as the reference says whenever the application did something, and if just the
levels were told that it says, each directly after the deed. Deeds of a listener that is being told
a level come after that.
-/

namespace Metering

variable {S σ α β : Type}

/-- The condition holds of every result that the run has, and the run fails in no other way than
these. -/
def Meets (bad : Halt → Prop) (m : Run S α) (w : World S) (Q : α → World S → Prop) : Prop :=
  match m w with
  | .ok (a, w') => Q a w'
  | .error h => bad h

section Meets

variable {bad : Halt → Prop} {w : World S} {Q : α → World S → Prop}

theorem Meets.of_ensures {m : Run S α} (h : Ensures m w Q) : Meets (fun _ => True) m w Q := by
  unfold Meets
  split
  · next a w' run => exact h a w' run
  · trivial

theorem Meets.ensures {m : Run S α} (h : Meets bad m w Q) : Ensures m w Q := by
  intro a w' run
  unfold Meets at h
  rwa [run] at h

theorem Meets.mono {m : Run S α} {P : α → World S → Prop} (h : Meets bad m w P)
    (imp : ∀ a w', P a w' → Q a w') : Meets bad m w Q := by
  unfold Meets at h ⊢
  split
  · next a w' run => exact imp a w' (by simpa [run] using h)
  · next e run => simpa [run] using h

@[simp]
theorem meets_bind {m : Run S β} {f : β → Run S α} : Meets bad (m >>= f) w Q ↔
    Meets bad m w fun b w' => Meets bad (f b) w' Q := by
  change Meets bad (StateT.bind m f) w Q ↔ _
  cases run : m w with
  | error e => simp [Meets, StateT.bind, run, bind, Except.bind]
  | ok r =>
    obtain ⟨b, w'⟩ := r
    simp [Meets, StateT.bind, run, bind, Except.bind]

theorem Meets.bind {m : Run S β} {f : β → Run S α} {P : β → World S → Prop} (h : Meets bad m w P)
    (rest : ∀ b w', P b w' → Meets bad (f b) w' Q) : Meets bad (m >>= f) w Q :=
  meets_bind.mpr (h.mono rest)

@[simp]
theorem meets_pure {a : α} : Meets bad (pure a : Run S α) w Q ↔ Q a w := Iff.rfl

@[simp]
theorem meets_get {Q : World S → World S → Prop} : Meets bad (get : Run S _) w Q ↔ Q w w := Iff.rfl

@[simp]
theorem meets_record {e : Entry} {Q : Unit → World S → Prop} :
    Meets bad (Run.record e) w Q ↔ Q () (w.record e) := Iff.rfl

@[simp]
theorem meets_page {f : Rig → Page} {Q : Unit → World S → Prop} :
    Meets bad (Run.page f) w Q ↔ Q () { w with story := f w.rig :: w.story } := Iff.rfl

@[simp]
theorem meets_modifyEffect {e : EffectId} {f : LevelEffect → LevelEffect}
    {Q : Unit → World S → Prop} : Meets bad (Run.modifyEffect e f) w Q ↔
      Q () { w with rig := { w.rig with effects := w.rig.effects.modify e f } } := Iff.rfl

theorem Meets.effect {e : EffectId} {x : LevelEffect} {f : LevelEffect → Run S α}
    (known : w.rig.effects[e]? = some x) (rest : Meets bad (f x) w Q) :
    Meets bad (Run.effect e >>= f) w Q := by
  simpa [Run.effect, Run.known, known] using rest

end Meets

/-- A program that makes calls of some kinds only. -/
def Program.Confined (among : Deed → Prop) : Program S α → Prop
  | .done _ => True
  | .update _ next => ∀ b, (next b).Confined among
  | .look _ next => ∀ b, (next b).Confined among
  | .note _ next => next.Confined among
  | .call c next => among c.deed ∧ ∀ b, (next b).Confined among

structure Reference (σ : Type) where
  start : σ
  after : σ → Deed → σ
  tells : σ → Deed → Option (ListenerId × Int)
  /-- The rig stands as the state says. -/
  fits : σ → Rig → Prop

namespace Reference

def state (ref : Reference σ) : List Page → σ
  | [] => ref.start
  | .did _ d :: rest => ref.after (ref.state rest) d
  | .heard .. :: rest => ref.state rest

/-- A story that follows a reference, with the level that it leaves to be told. -/
inductive Follows (ref : Reference σ) : List Page → Option (ListenerId × Int) → Prop
  | nil : ref.Follows [] none
  | did {ps : List Page} {r : Rig} (d : Deed) : ref.Follows ps none → ref.fits (ref.state ps) r →
    ref.Follows (.did r d :: ps) (ref.tells (ref.state ps) d)
  | heard {ps : List Page} {l : ListenerId} {n : Int} : ref.Follows ps (some (l, n)) →
    ref.Follows (.heard l n :: ps) none

section Follows

variable {ref : Reference σ} {ps : List Page} {r : Rig} {d : Deed} {due : Option (ListenerId × Int)}

/-- Every part of a story follows the reference. -/
theorem Follows.before (h : ref.Follows ps due) {later earlier : List Page}
    (eq : ps = later ++ earlier) : ∃ due, ref.Follows earlier due := by
  induction later generalizing ps due with
  | nil =>
    subst eq
    exact ⟨due, h⟩
  | cons p later ih =>
    subst eq
    cases h with
    | did d before _ => exact ih before rfl
    | heard before => exact ih before rfl

/-- The rig stood as the reference says when the application did something. -/
theorem Follows.stood (h : ref.Follows ps due) {later earlier : List Page}
    (eq : ps = later ++ .did r d :: earlier) : ref.fits (ref.state earlier) r := by
  obtain ⟨due, here⟩ := h.before eq
  cases here with
  | did d _ fits => exact fits

theorem Follows.due_did {earlier : List Page} (h : ref.Follows (.did r d :: earlier) due) :
    due = ref.tells (ref.state earlier) d := by
  cases h with
  | did => rfl

/-- Only a deed leaves a level to be told. -/
theorem Follows.due_some (h : ref.Follows ps due) {x : ListenerId × Int} (eq : due = some x) :
    ∃ r d rest, ps = .did r d :: rest ∧ ref.fits (ref.state rest) r ∧
      ref.tells (ref.state rest) d = some x := by
  cases h with
  | nil => cases eq
  | @did rest r d _ fits => exact ⟨r, d, rest, rfl, fits, eq⟩
  | heard => cases eq

/-- What a listener was told, it was told directly after the deed that lets it be told this. -/
theorem Follows.told (h : ref.Follows ps due) {l : ListenerId} {n : Int}
    {later earlier : List Page} (eq : ps = later ++ .heard l n :: earlier) :
    ∃ r d rest, earlier = .did r d :: rest ∧ ref.fits (ref.state rest) r ∧
      ref.tells (ref.state rest) d = some (l, n) := by
  obtain ⟨due, here⟩ := h.before eq
  cases here with
  | heard before => exact before.due_some rfl

/-- What a deed lets a listener be told, it is told directly after. -/
theorem Follows.tells (h : ref.Follows ps none) {l : ListenerId} {n : Int}
    {later earlier : List Page} (eq : ps = later ++ .did r d :: earlier)
    (tells : ref.tells (ref.state earlier) d = some (l, n)) :
    ∃ rest, later = rest ++ [.heard l n] := by
  rcases List.eq_nil_or_concat later with rfl | ⟨rest, p, rfl⟩
  · subst eq
    cases h.due_did.trans tells
  · have eq' : ps = rest ++ p :: .did r d :: earlier := by simpa using eq
    obtain ⟨due, here⟩ := h.before eq'
    cases here with
    | did _ before _ => cases before.due_did.trans tells
    | heard before =>
      cases before.due_did.trans tells
      exact ⟨rest, List.concat_eq_append ..⟩

end Follows

/-- So far the run is as the reference says, if its story is one of those that are spoken of. -/
def Holds (ref : Reference σ) (spoken : List Page → Prop) (w : World S) : Prop :=
  spoken w.story → ref.Follows w.story none ∧ ref.fits (ref.state w.story) w.rig

/-- A deed begins. Before it the run was as the reference says. -/
def Begins (ref : Reference σ) (spoken : List Page → Prop) (d : Deed) (w : World S) : Prop :=
  ∃ ps, w.story = .did w.rig d :: ps ∧
    (spoken w.story → ref.Follows ps none ∧ ref.fits (ref.state ps) w.rig)

variable {ref : Reference σ} {spoken : List Page → Prop} {among : Deed → Prop}
variable {bad : Halt → Prop} {w : World S} {again : {β : Type} → Call β → Run S β}

/-- A deed that lets nobody be told anything comes to its end. -/
theorem Begins.ends {d : Deed} {w' : World S} (h : ref.Begins spoken d w)
    (story : w'.story = w.story) (silent : ∀ s, ref.fits s w.rig → ref.tells s d = none)
    (fits : ∀ s, ref.fits s w.rig → ref.fits (ref.after s d) w'.rig) : ref.Holds spoken w' := by
  obtain ⟨ps, eq, before⟩ := h
  intro told
  rw [story] at told
  obtain ⟨follows, stood⟩ := before told
  rw [story, eq]
  have here := Follows.did d follows stood
  rw [silent _ stood] at here
  exact ⟨here, fits _ stood⟩

/-- A deed has let a listener be told a level. -/
theorem Begins.tells {d : Deed} {w' : World S} {l : ListenerId} {n : Int}
    (h : ref.Begins spoken d w) (closed : ∀ p ps, spoken (p :: ps) → spoken ps)
    (story : w'.story = .heard l n :: w.story)
    (told : ∀ s, ref.fits s w.rig → ref.tells s d = some (l, n))
    (fits : ∀ s, ref.fits s w.rig → ref.fits (ref.after s d) w'.rig) : ref.Holds spoken w' := by
  obtain ⟨ps, eq, before⟩ := h
  intro said
  rw [story] at said
  obtain ⟨follows, stood⟩ := before (closed _ _ said)
  rw [story, eq]
  have here := Follows.did d follows stood
  rw [told _ stood] at here
  exact ⟨.heard here, fits _ stood⟩

/-- Programs are as the reference says if every deed is. -/
theorem Holds.run (closed : ∀ p ps, spoken (p :: ps) → spoken ps)
    (calls : ∀ {β : Type} (c : Call β), among c.deed → ∀ w, ref.Begins spoken c.deed w →
      Meets bad (again c) w fun _ => ref.Holds spoken)
    {p : Program S α} (confined : p.Confined among) (h : ref.Holds spoken w) :
    Meets bad (p.run again) w fun _ => ref.Holds spoken := by
  induction p generalizing w with
  | done a => exact h
  | update f next ih => exact ih _ (confined _) h
  | look f next ih => exact ih _ (confined _) h
  | note text next ih => exact ih confined h
  | call c next ih =>
    have begins : ref.Begins spoken c.deed
        { w with moments := w.now :: w.moments, story := .did w.rig c.deed :: w.story } :=
      ⟨w.story, rfl, fun told => h (closed _ _ told)⟩
    have answered := calls c confined.1 _ begins
    change Meets bad (again c >>= fun b => Run.mark >>= fun _ => (next b).run again) _ _
    refine answered.bind ?_
    intro b w' holds
    exact ih b (confined.2 b) holds

/-- A run is as the reference says if every answer is, given that the listeners' programs are. -/
theorem Holds.program (h : ref.Holds spoken w) {app : Application S} (bad : Halt → Prop)
    (tooDeep : bad .tooDeep) (closed : ∀ p ps, spoken (p :: ps) → spoken ps)
    (listens : ∀ l n, (app.level l n).Confined among)
    (answers : ∀ depth, (∀ l n (w : World S), ref.Holds spoken w →
        Meets bad ((app.level l n).run (perform app depth)) w fun _ => ref.Holds spoken) →
      ∀ {β : Type} (c : Call β), among c.deed → ∀ w, ref.Begins spoken c.deed w →
        Meets bad (answer app (perform app depth) c) w fun _ => ref.Holds spoken)
    (depth : Nat) {p : Program S α} (confined : p.Confined among) :
    Meets bad (p.run (perform app depth)) w fun _ => ref.Holds spoken := by
  have performs : ∀ {β : Type} (c : Call β), among c.deed → ∀ w, ref.Begins spoken c.deed w →
      Meets bad (perform app depth c) w fun _ => ref.Holds spoken := by
    induction depth with
    | zero => exact fun _ _ _ _ => tooDeep
    | succ depth ih =>
      have told (l : ListenerId) (n : Int) (w : World S) (holds : ref.Holds spoken w) :
          Meets bad ((app.level l n).run (perform app depth)) w fun _ => ref.Holds spoken :=
        holds.run closed ih (listens l n)
      intro β c one w begins
      exact answers depth told c one w begins
  exact h.run closed performs confined

end Reference

end Metering
