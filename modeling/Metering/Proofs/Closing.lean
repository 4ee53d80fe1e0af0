import Metering.Proofs.Transitions
/-!
Closing for good. A processor that is closed stays so, unless it was closed while it realized: then
it stores the phase that it was about to come to, and announces the event that goes with it.
-/

namespace Metering

variable {S α : Type}

def lastPhase (v : List Act) : Phase :=
  v.foldl (fun a act => match act with
    | .moved b => b
    | .announced _ => a) .unrealized

@[simp]
theorem lastPhase_moved (v : List Act) (b : Phase) : lastPhase (v ++ [.moved b]) = b := by
  simp [lastPhase]

@[simp]
theorem lastPhase_announced (v : List Act) (e : Event) :
    lastPhase (v ++ [.announced e]) = lastPhase v := by
  simp [lastPhase]

/-- To be closed and to announce something leaves a processor closed. -/
theorem lastPhase_of_tail (before : List Act) {t rest : List Act} {e : Event}
    (tail : t ++ rest = [.announced e]) :
    lastPhase (before ++ .moved .closed :: t) = .closed := by
  obtain ⟨rfl, -⟩ | ⟨rfl, -⟩ := List.append_eq_singleton_iff.mp tail
  · exact lastPhase_moved before .closed
  · rw [List.append_cons, lastPhase_announced, lastPhase_moved]

section Course

variable {intruded : Prop} {a b : Phase} {v : List Act}

/-- Where a processor is not closed while it realizes, plug-ins might as well not intrude. -/
theorem Transition.undisturbed {op : Request} {r : Except Fault Unit}
    (h : Transition intruded op a v b r)
    (apart : ¬[.moved .realizing, .moved .closed] <:+: v) : Transition False op a v b r := by
  cases h with
  | configure => exact .configure
  | realize => exact .realize
  | refuse f => exact .refuse f
  | start => exact .start
  | stop => exact .stop
  | close alive => exact .close alive
  | revive => exact absurd (List.infix_append [] _ _) apart
  | reviveRefused => exact absurd (List.infix_append [] _ _) apart

theorem Course.undisturbed (h : Course intruded a v b)
    (apart : ¬[.moved .realizing, .moved .closed] <:+: v) : Course False a v b := by
  induction h with
  | rest => exact .rest _
  | @go b c v u op r _ t ih =>
    have before : ¬[.moved .realizing, .moved .closed] <:+: v := by
      intro within
      exact apart (within.trans (List.infix_append' [] v u))
    have here : ¬[.moved .realizing, .moved .closed] <:+: u := by
      intro within
      exact apart (within.trans (List.suffix_append v u).isInfix)
    exact .go (ih before) (t.undisturbed here)

theorem Transition.closed_last {op : Request} {r : Except Fault Unit}
    (h : Transition False op a v b r) {t : List Act} (closed : .moved .closed :: t <:+ v) :
    t = [.announced .closed] ∧ b = .closed := by
  cases h <;> simp_all [List.suffix_cons_iff]

/-- Without intrusion, to be closed is the last thing that happens. -/
theorem Course.closed_last (h : Course False a v b) {t : List Act}
    (closed : .moved .closed :: t <:+ v) : t = [.announced .closed] ∧ b = .closed := by
  induction h generalizing t with
  | rest => simp at closed
  | @go b c v u op r _ next ih =>
    obtain ⟨s, whole⟩ := closed
    obtain ⟨rest, rfl, tail⟩ | ⟨rest, rfl, rfl⟩ := List.append_eq_append_iff.mp whole
    · cases rest with
      | nil => exact next.closed_last (tail ▸ List.suffix_refl _)
      | cons x rest =>
        obtain ⟨rfl, -⟩ := List.cons_eq_cons.mp tail
        obtain ⟨-, rfl⟩ := ih (List.suffix_append s _)
        cases next with
        | close alive => exact absurd rfl alive
    · exact next.closed_last (List.suffix_append rest _)

/-- No transition ends when a phase is stored: there is an event to announce. -/
theorem Course.ne_moved (h : Course intruded a v b) (u : List Act) (c : Phase) :
    v ≠ u ++ [.moved c] := by
  intro eq
  have last := congrArg List.getLast? eq
  cases h with
  | rest => simp at last
  | go _ next => cases next <;> simp at last

/-- A processor that was closed while it realized does not stay closed. -/
theorem Course.apart (h : Course intruded a v b)
    (forGood : ∀ t, .moved .closed :: t <:+ v → t = [.announced .closed]) :
    ¬[.moved .realizing, .moved .closed] <:+: v := by
  rintro ⟨s, t, eq⟩
  obtain rfl := forGood t ⟨s ++ [.moved .realizing], by simpa using eq⟩
  cases h with
  | rest => simp at eq
  | @go b c v u op r before next =>
    have last := congrArg List.getLast? eq
    cases next with
    | close =>
      have tail : v ++ [Act.moved .closed, .announced .closed] =
          s ++ [.moved .realizing] ++ [.moved .closed, .announced .closed] := by
        simpa using eq.symm
      exact before.ne_moved s .realizing (List.append_cancel_right tail)
    | _ => simp at last

end Course

/-- The journal knows the phase of a processor of the rig. -/
def Moment.Recorded (p : ProcessorId) (m : Moment) : Prop :=
  m.rig.isExternal p = false → m.rig.phase p = lastPhase (acts p m.journal)

/-- The journal knows the phase of a processor, and did so at every moment. -/
structure World.Recorded (p : ProcessorId) (w : World S) : Prop where
  now : w.now.Recorded p
  moments : ∀ m ∈ w.moments, m.Recorded p ∧ m.journal <:+ w.journal ∧
    (m.rig.isExternal p = true → w.rig.isExternal p = true)

def Records (p : ProcessorId) (w w' : World S) : Prop := w.Recorded p → w'.Recorded p

namespace Records

variable {p : ProcessorId} {w : World S}

theorem flow : Flow (Records (S := S) p) where
  refl _ := id
  trans first second h := second (first h)

theorem of_rests (w w' : World S) (rests : Rests p w w') : Records p w w' := fun h => by
  refine ⟨fun internal => ?_, fun m seen => ?_⟩
  · have before := h.now (rests.external.symm.trans internal)
    exact rests.phase.trans (rests.acts ▸ before)
  · obtain ⟨recorded, earlier, external⟩ := h.moments m (rests.moments ▸ seen)
    exact ⟨recorded, earlier.trans rests.journal, fun was => rests.external.trans (external was)⟩

theorem record {e : Entry} (still : ∀ q phase, e ≠ .moved q phase) :
    Keeps (S := S) (Records p) (Run.record e) := by
  refine fun w => ensures_record.mpr fun h => ⟨fun internal => (h.now internal).trans ?_, ?_⟩
  · cases e with
    | moved q phase => exact absurd rfl (still q phase)
    | announced q e => by_cases same : q = p <;> simp [same, World.now]
    | _ => simp [World.now]
  · intro m seen
    obtain ⟨recorded, earlier, external⟩ := h.moments m seen
    exact ⟨recorded, earlier.trans (List.suffix_cons _ _), external⟩

theorem mark : Keeps (S := S) (Records p) Run.mark := fun w =>
  ensures_mark.mpr fun h => ⟨h.now, fun m seen => by
    obtain rfl | before := List.mem_cons.mp seen
    · exact ⟨h.now, List.suffix_rfl, id⟩
    · exact h.moments m before⟩

theorem newExternal (name : String) (phase : Phase) (tracks : List TrackPlan) :
    Keeps (S := S) (Records p) (Run.newProcessor (.newExternal name phase tracks)) := by
  intro w
  by_cases made : p = w.rig.processors.length
  · simp only [Run.newProcessor, ensures_bind, ensures_get, ensures_modifyRig, ensures_pure]
    refine fun h => ⟨fun internal => ?_, fun m seen => ?_⟩
    · simp [World.now, Rig.isExternal, made, Processor.newExternal] at internal
    · obtain ⟨recorded, earlier, external⟩ := h.moments m seen
      refine ⟨recorded, earlier, fun _ => ?_⟩
      simp [Rig.isExternal, made, Processor.newExternal]
  · exact (Rests.newProcessor fun h => absurd h made).mono fun _ => of_rests w

theorem plain : Plain (Records (S := S) p) := Rests.plain flow of_rests mark newExternal

theorem moveTo (q : ProcessorId) (phase : Phase) :
    Keeps (S := S) (Records p) (Run.moveTo q phase) := by
  refine fun w => ensures_moveTo.mpr fun x known => ?_
  by_cases same : q = p
  · subst same
    refine fun h => ⟨fun _ => ?_, fun m seen => ?_⟩
    · simp [World.now, World.move_phase known]
    · obtain ⟨recorded, earlier, external⟩ := h.moments m seen
      exact ⟨recorded, earlier.trans (List.suffix_cons _ _),
        fun was => World.move_isExternal.trans (external was)⟩
  · exact of_rests _ _ (World.move_rests same)

theorem steady (app : Application S) : Steady app (fun _ => True) (Records p) where
  toPlain := plain
  holding q _ := plain.holding fun _ w =>
    ensures_modifyProcessor.mpr (of_rests w _ (.modify q (fun _ => rfl) fun _ => rfl))
  opened _ := record fun _ _ => nofun
  closed _ := record fun _ _ => nofun
  setOpen q _ _ w := ((Rests.tending p).setOpen q _ _ w).mono fun _ => of_rests w
  moveTo q _ := moveTo q
  readied _ _ _ := record fun _ _ => nofun
  lockTracks q _ w := (Rests.lockTracks q w).mono fun _ => of_rests w
  emit again answers q _ e := plain.emit (fun _ _ => record fun _ _ => nofun)
    (fun _ _ _ => record fun _ _ => nofun) again answers q e

end Records

theorem World.Recorded.moment {p : ProcessorId} {w : World S} (h : w.Recorded p) {m : Moment}
    (seen : m ∈ w.now :: w.moments) : m.Recorded p ∧ m.journal <:+ w.journal ∧
      (m.rig.isExternal p = true → w.rig.isExternal p = true) := by
  obtain rfl | before := List.mem_cons.mp seen
  · exact ⟨h.now, List.suffix_rfl, id⟩
  · exact h.moments m before

/-- A processor that is closed remains so at every later moment and has nothing to announce but
that, exactly if it is not closed while it realizes. -/
theorem closed_for_good_iff {app : Application S} {depth : Nat} {program : Program S α} {s : S}
    {a : α} {w : World S} (run : program.run (perform app depth) { app := s } = .ok (a, w))
    {p : ProcessorId} (internal : w.rig.isExternal p = false) :
    ((∀ m ∈ w.now :: w.moments, .moved p .closed ∈ m.journal → m.rig.phase p = .closed) ∧
      ∀ t, .moved .closed :: t <:+ acts p w.journal → t = [.announced .closed]) ↔
    ¬[.moved .realizing, .moved .closed] <:+: acts p w.journal := by
  have lawful : Lawful app (Proceeds (S := S) True p) := Proceeds.lawful (.inl trivial) p
  obtain ⟨v, whole, course⟩ := (lawful.program depth program _ a w run).leads.course internal
  rw [show acts p w.journal = v from whole]
  constructor
  · rintro ⟨-, forGood⟩
    exact course.apart forGood
  · intro apart
    have last {t : List Act} (closed : .moved .closed :: t <:+ v) : t = [.announced .closed] :=
      ((course.undisturbed apart).closed_last closed).1
    refine ⟨fun m seen closed => ?_, fun t => last⟩
    have start : World.Recorded p { app := s } := ⟨fun _ => rfl, by simp⟩
    have recorded := (Records.steady app).lawful (fun _ => trivial) |>.program depth program
      _ a w run start
    obtain ⟨phase, earlier, external⟩ := recorded.moment seen
    -- The moment has seen the closing, and by `last` nothing but its announcement can have come
    -- since.
    obtain ⟨before, t, eq⟩ := List.append_of_mem (mem_acts closed)
    obtain ⟨rest, eq'⟩ := acts_of_suffix (p := p) earlier
    have tail : t ++ rest = [.announced .closed] :=
      last ⟨before, by rw [← show acts p w.journal = v from whole, ← eq', eq]; simp⟩
    have inside : m.rig.isExternal p = false := by
      cases was : m.rig.isExternal p with
      | false => rfl
      | true => exact (external was).symm.trans internal
    rw [phase inside, eq]
    exact lastPhase_of_tail before tail

/-- The first plug-in closes its processor when it is offered a format. -/
def Application.meddling : Application Unit :=
  { Application.silent Unit with
    offer := fun _ f => do
      .send (.close 0)
      return some f }

def Program.realization : Program Unit Unit := do
  let p ← .send (.newProcessor "p" [⟨.audio .telephone, true⟩])
  let _ ← .send (.configure p)
  let _ ← .send (.setChain p 0 [.codec 0 "c"])
  let _ ← .send (.realize p)

theorem closed_reopens :
    ∃ w, Program.realization.run (perform Application.meddling 4) { app := () } = .ok ((), w) ∧
      w.rig.isExternal 0 = false ∧ .moved 0 .closed ∈ w.journal ∧ w.rig.phase 0 = .realized ∧
      .moved .closed :: [.announced .closed, .moved .realized, .announced .realized] <:+
        acts 0 w.journal :=
  ⟨_, rfl, rfl, by decide, rfl, by decide⟩

def Program.lifetime : Program Unit Unit := do
  Program.realization
  .send (.close 0)

theorem closed_for_good_iff_silent :
    ∃ w, Program.lifetime.run (perform (.silent Unit) 4) { app := () } = .ok ((), w) ∧
      w.rig.isExternal 0 = false ∧
      ∀ m ∈ w.now :: w.moments, .moved 0 .closed ∈ m.journal → m.rig.phase 0 = .closed := by
  have ends : ∃ w, Program.lifetime.run (perform (.silent Unit) 4) { app := () } = .ok ((), w) ∧
      w.rig.isExternal 0 = false ∧ acts 0 w.journal =
        [.moved .configuring, .moved .configured, .announced .configured, .moved .realizing,
          .moved .realized, .announced .realized, .moved .closed, .announced .closed] :=
    ⟨_, rfl, rfl, rfl⟩
  obtain ⟨w, run, internal, acts⟩ := ends
  exact ⟨w, run, internal, ((closed_for_good_iff run internal).mpr (by rw [acts]; decide)).1⟩

end Metering
