import Metering.Proofs.Accounting
/-!
Processors that a session took in. At the end of every run each is in its place or closed, whatever
the listeners did that were called on the way, with one exception: when a session turns a processor
away for capture, it gives up the one that is in use by then, and does not close it.

* `in_place_iff`: the exception is the only one;
* `orphan_lives`: it occurs.
-/

namespace Metering

variable {S α : Type} {app : Application S}

theorem World.internal_iff {w : World S} :
    w.Internal ↔ ∀ x ∈ w.rig.processors, x.isExternal = false := by
  constructor
  · intro internal x member
    obtain ⟨q, bound, rfl⟩ := List.getElem_of_mem member
    rw [← internal q, Rig.isExternal_of (List.getElem?_eq_getElem bound)]
  · intro all q
    cases known : w.rig.processors[q]? with
    | none => simp [Rig.isExternal, known]
    | some x => rw [Rig.isExternal_of known, all x (List.mem_of_getElem? known)]

instance (w : World S) : Decidable w.Internal := decidable_of_iff' _ World.internal_iff

/-- At the beginning there is nothing to account for. -/
theorem World.accounted_start (s : S) : World.Accounted {} { app := s } where
  capture _ _ member := by cases member
  slot _ _ here := by cases here
  stream _ _ _ taken := absurd taken not_taken_nil
  moved _ _ _ joined := by cases joined

theorem World.recorded_start (s : S) (q : ProcessorId) : World.Recorded q { app := s } :=
  ⟨fun _ => rfl, by simp⟩

/-- If plug-ins are quiet, a processor that has closed is closed. -/
theorem Proceeds.closed {p : ProcessorId} {s : S} {w : World S}
    (h : Proceeds False p { app := s } w) (internal : w.rig.isExternal p = false)
    (closed : HasClosed p w.journal) : w.rig.phase p = .closed := by
  obtain ⟨v, whole, course⟩ := h.leads.course internal
  obtain ⟨before, after, eq⟩ := List.append_of_mem (mem_acts closed)
  have last : .moved .closed :: after <:+ v := ⟨before, eq.symm.trans whole⟩
  exact (course.closed_last last).2

/-- To use a session before and after an operation takes nothing from the journal. -/
theorem Accounts.ensures_duringUse {again : {β : Type} → Call β → Run S β}
    (answers : Answers Accounts again) {body : Run S α} {Q : α → List Entry → List Entry → Prop}
    (holds : ∀ w, Ensures body w fun a w' =>
      w'.Internal → (∀ q, w.Recorded q) → Q a w.journal w'.journal)
    (mono : ∀ {a before journal later}, journal <:+ later → Q a before journal → Q a before later)
    (t : SessionId) (w : World S) : Ensures (Metering.duringUse app again t body) w fun a w' =>
      w'.Internal → (∀ q, w.Recorded q) → Q a w.journal w'.journal := by
  refine ensures_bind.mpr (ensures_modifySession.mpr ?_)
  refine Ensures.bind (holds _) fun a v held => ?_
  refine Ensures.bind ((abiding app).releaseSession answers t v) fun _ w' rest => ?_
  refine ensures_pure.mpr fun internal recorded => mono rest.journal ?_
  exact held (rest.toLasts.internal internal) fun q => (Lasts.arrange t _).records q (recorded q)

section Calls

variable {u : World S}

/-- The session subscribes to the processor in the course of a call. The condition speaks of the
journal as it is then. -/
def Joins (p : ProcessorId) (x : Subscriber) (Q : List Entry → Prop)
    (journal later : List Entry) : Prop :=
  ∃ before, journal <:+ before ∧ .subscribed p x :: before <:+ later ∧ Q before

theorem Joins.mono {p : ProcessorId} {x : Subscriber} {Q : List Entry → Prop}
    {before journal later : List Entry} (grows : journal <:+ later)
    (h : Joins p x Q before journal) : Joins p x Q before later := by
  obtain ⟨es, first, within, holds⟩ := h
  exact ⟨es, first, within.trans grows, holds⟩

theorem joins_connectCapture (depth : Nat) (t : SessionId) (p : ProcessorId) :
    Ensures (perform app depth (.connectCapture t p)) u fun r v => v.Internal →
      (∀ q, u.Recorded q) → Joins p (.capture t) (fun before => r = .ok () ↔ early p before = true)
        u.journal v.journal := by
  cases depth with
  | zero => exact ensures_throw
  | succ depth =>
    have answers : Answers Accounts (perform app depth) := (Accounts.abiding app).perform depth
    refine Accounts.ensures_duringUse (Q := fun (r : Except Fault Unit) =>
      Joins p (.capture t) fun before => r = .ok () ↔ early p before = true) answers
      (fun w => ?_) Joins.mono t u
    exact (Accounts.connects answers t p).mono fun _ _ ends internal recorded =>
      (ends internal recorded).2

theorem joins_addStream (depth : Nat) (t : SessionId) (k : Ssrc) (p : ProcessorId) :
    Ensures (perform app depth (.addStream t k p)) u fun r v => v.Internal →
      (∀ q, u.Recorded q) → r = .ok () →
      Joins p (.stream t k) (fun before => early p before = true) u.journal v.journal := by
  cases depth with
  | zero => exact ensures_throw
  | succ depth =>
    have answers : Answers Accounts (perform app depth) := (Accounts.abiding app).perform depth
    refine Accounts.ensures_duringUse (Q := fun (r : Except Fault Unit) journal later =>
      r = .ok () → Joins p (.stream t k) (fun before => early p before = true) journal later)
      answers (fun w => ?_) (fun grows h ok => (h ok).mono grows) t u
    exact (Accounts.adds answers t k p).mono fun _ _ ends internal recorded =>
      (ends internal recorded).2

end Calls

/-- A run ends. Its journal knows the phases of all processors. A processor that is not closed is
in use for capture exactly if the session took it in and turned none away since, and it plays every
stream for which it was taken in. A session that answers a connection or an addition with success,
during the run or after it, took the processor in. -/
theorem in_place_iff (quiet : app.QuietPlugIns) {depth : Nat} {program : Program S α} {s : S}
    {a : α} {w : World S} (run : program.run (perform app depth) { app := s } = .ok (a, w))
    (internal : w.Internal) :
    (∀ q, w.Recorded q) ∧
    (∀ t p, w.rig.phase p ≠ .closed → (w.rig.slot t = some p ↔ p ∈ held t w.journal)) ∧
    (∀ t k p, w.rig.phase p ≠ .closed → Taken p (.stream t k) w.journal →
      w.rig.stored t k = some p) ∧
    ∀ (depth : Nat) (u v : World S) (r : Except Fault Unit) (t : SessionId) (p : ProcessorId),
      v.Internal → (∀ q, u.Recorded q) →
      (perform app depth (.connectCapture t p) u = .ok (r, v) →
        Joins p (.capture t) (fun before => r = .ok () ↔ early p before = true)
          u.journal v.journal) ∧
      ∀ k, perform app depth (.addStream t k p) u = .ok (r, v) → r = .ok () →
        Joins p (.stream t k) (fun before => early p before = true) u.journal v.journal := by
  have accounts := (Accounts.abiding app).program depth program _ a w run
  have proceeds (p : ProcessorId) : Proceeds False p { app := s } w :=
    (Proceeds.lawful (.inr quiet) p).program depth program _ a w run
  -- The account holds up to a processor that is closed, one that is just coming and one that is
  -- just going. At the end of a run the last two are excluded.
  have account := (accounts.audits internal (World.recorded_start s)).accounted _
    (World.accounted_start s)
  refine ⟨fun q => accounts.records q (World.recorded_start s q), fun t p alive => ?_, ?_, ?_⟩
  · constructor
    · intro here
      obtain member | closed | comes := account.slot t p here
      · exact member
      · exact absurd ((proceeds p).closed (internal p) closed) alive
      · exact comes.elim
    · intro member
      obtain here | closed | away := account.capture t p member
      · exact here
      · exact absurd ((proceeds p).closed (internal p) closed) alive
      · exact away.elim
  · intro t k p alive taken
    obtain here | closed | away := account.stream t k p taken
    · exact here
    · exact absurd ((proceeds p).closed (internal p) closed) alive
    · exact away.elim
  · intro depth u v r t p internal recorded
    refine ⟨fun run => joins_connectCapture depth t p r v run internal recorded, fun k run => ?_⟩
    exact joins_addStream depth t k p r v run internal recorded

def Program.source (name : String) : Program Unit ProcessorId :=
  .send (.newProcessor name [⟨.audio .telephone, true⟩])

def Program.replacement : Program Unit Unit := do
  let p ← .source "p"
  let q ← .source "q"
  let s ← .send (.newSession "s" ⟨"d", "d", false⟩ {})
  let _ ← .send (.connectCapture s p)
  let _ ← .send (.connectCapture s q)

theorem in_place_iff_silent : (Application.silent Unit).QuietPlugIns ∧
    ∃ w, Program.replacement.run (perform (.silent Unit) 6) { app := () } = .ok ((), w) ∧
      w.Internal ∧ w.rig.phase 1 ≠ .closed ∧ w.rig.slot 0 = some 1 := by
  have quiet : (Application.silent Unit).QuietPlugIns :=
    ⟨fun _ _ => trivial, fun _ => trivial, fun _ => trivial⟩
  have ends : ∃ w, Program.replacement.run (perform (.silent Unit) 6) { app := () } =
      .ok ((), w) ∧ w.Internal ∧ w.rig.phase 1 ≠ .closed ∧ 1 ∈ held 0 w.journal :=
    ⟨_, rfl, by decide, by decide, by decide⟩
  obtain ⟨w, run, internal, alive, member⟩ := ends
  have inPlace := (in_place_iff quiet run internal).2.1 0 1 alive
  exact ⟨quiet, w, run, internal, alive, inPlace.mpr member⟩

/-- Connects a processor and writes down its name and whether that went well. -/
def Program.connection (name : String) (p : ProcessorId) : Program Unit Unit := do
  match ← .send (.connectCapture 0 p) with
  | .ok () => .write (name ++ " is taken in")
  | .error _ => .write (name ++ " is turned away")

/-- When the first processor is closed, a watcher connects the third one. -/
def Application.relieving : Application Unit :=
  { Application.silent Unit with
    event := fun _ p e => match p, e with
      | 0, .closed => .connection "r" 2
      | _, _ => .done () }

/-- A session that has one processor in use for capture, which is watched, and then another. -/
def Program.relief : Program Unit Unit := do
  let p ← .source "p"
  let q ← .source "q"
  let _ ← .source "r"
  let s ← .send (.newSession "s" ⟨"d", "d", false⟩ {})
  let _ ← .send (.connectCapture s p)
  .send (.watch p 0)
  .connection "q" q

/-- The connection of the second processor fails. The third, which was connected with success in
the meantime, is in use no longer and goes on. -/
theorem orphan_lives : Application.relieving.QuietPlugIns ∧
    (Program.relief.run (perform .relieving 8)).Ends { app := () } fun w => w.Internal ∧
      .note "q is turned away" ∈ w.journal ∧ .note "r is taken in" ∈ w.journal ∧
      Taken 2 (.capture 0) w.journal ∧ w.rig.phase 2 = .realized ∧ w.rig.slot 0 = none :=
  ⟨⟨fun _ _ => trivial, fun _ => trivial, fun _ => trivial⟩, by decide +kernel⟩

end Metering
