import Metering.Proofs.Proceeding
/-!
Each operation takes its processor through one transition at most and leaves all others where they
are. Whatever else happens is due to the application, when it is called on the way.
-/

namespace Metering

variable {S α : Type} {app : Application S} {again : {β : Type} → Call β → Run S β}
variable {intruded : Prop} {p q : ProcessorId} {u w : World S}

/-- What happens to a processor between the beginning of its realization and the end of it. -/
def Intrusion (intruded : Prop) (v : List Act) : Prop :=
  v = [] ∨ intruded ∧ v = [.moved .closed, .announced .closed]

section Intrusion

variable {v : List Act} (h : Intrusion intruded v)
include h

theorem Intrusion.realized : Transition intruded .realize .configured
    (.moved .realizing :: v ++ [.moved .realized, .announced .realized]) .realized (.ok ()) := by
  obtain rfl | ⟨intrudes, rfl⟩ := h
  · exact .realize
  · exact .revive intrudes

theorem Intrusion.refused (f : Fault) : Transition intruded .realize .configured
    (.moved .realizing :: v ++ [.moved .configured, .announced (.failed f.message)])
    .configured (.error f) := by
  obtain rfl | ⟨intrudes, rfl⟩ := h
  · exact .refuse f
  · exact .reviveRefused intrudes f

end Intrusion

/-- The request takes a processor in this phase further. -/
def Request.begins : Request → Phase → Bool
  | .configure, .unrealized | .realize, .configured | .start, .realized | .stop, .started => true
  | .close, a => !a.isClosed
  | _, _ => false

/-- A processor has completed a transition, of which nobody has been told yet. -/
structure Turns (intruded : Prop) (p : ProcessorId) (op : Request) (w : World S)
    (r : Except Fault Unit) (u : World S) : Prop where
  internal : w.rig.isExternal p = false
  moments : ¬intruded → u.moments = w.moments
  transition : u.rig.isExternal p = false → ∃ v, acts p u.journal = acts p w.journal ++ v ∧
    Transition intruded op (w.rig.phase p) v (u.rig.phase p) r

/-- A processor of the rig does what it is asked: it goes through a transition, and then further
as its subscribers want, or it leaves the world as it is. -/
def Carries (intruded : Prop) (p : ProcessorId) (op : Request) (w : World S)
    (r : Except Fault Unit) (w' : World S) : Prop :=
  if w.rig.isExternal p then Proceeds intruded p w w'
  else if op.begins (w.rig.phase p) then
    ∃ u, Turns intruded p op w r u ∧ Proceeds intruded p u w'
  else w' = w

theorem Turns.proceeds {op : Request} {r : Except Fault Unit} (h : Turns intruded p op w r u) :
    Proceeds intruded p w u where
  leads :=
    { external := fun external => absurd (h.internal.symm.trans external) Bool.false_ne_true
      course := fun internal => by
        obtain ⟨v, acts, t⟩ := h.transition internal
        exact ⟨v, acts, t.course⟩ }
  moments quiet := ⟨[], h.moments quiet, .nil, by simp⟩

theorem Carries.proceeds {op : Request} {r : Except Fault Unit}
    (h : Carries intruded p op w r u) : Proceeds intruded p w u := by
  unfold Carries at h
  split at h
  · exact h
  · split at h
    · obtain ⟨v, turns, rest⟩ := h
      exact turns.proceeds.trans rest
    · exact h ▸ .refl u

section Tended

variable (h : Rests p u w ∨ intruded ∧ Proceeds intruded p u w)
include h

theorem tended_moments (calm : ¬intruded) : w.moments = u.moments :=
  h.elim (·.moments) fun h => absurd h.1 calm

theorem tended_realizing (realizing : u.rig.phase p = .realizing)
    (internal : w.rig.isExternal p = false) :
    ∃ v, Intrusion intruded v ∧ acts p w.journal = acts p u.journal ++ v := by
  obtain rests | ⟨intrudes, next⟩ := h
  · exact ⟨[], .inl rfl, by rw [rests.acts, List.append_nil]⟩
  · obtain ⟨v, acts, course⟩ := next.leads.course internal
    rw [show u.now.rig.phase p = .realizing from realizing] at course
    obtain ⟨rfl, -⟩ | ⟨rfl, -⟩ := course.of_realizing
    · exact ⟨[], .inl rfl, acts⟩
    · exact ⟨_, .inr ⟨intrudes, rfl⟩, acts⟩

theorem tended_closed (closed : u.rig.phase p = .closed) (internal : w.rig.isExternal p = false) :
    acts p w.journal = acts p u.journal ∧ w.rig.phase p = .closed := by
  obtain rests | ⟨intrudes, next⟩ := h
  · exact ⟨rests.acts, rests.phase.trans closed⟩
  · obtain ⟨v, acts, course⟩ := next.leads.course internal
    rw [show u.now.rig.phase p = .closed from closed] at course
    obtain ⟨rfl, phase⟩ := course.of_closed
    exact ⟨by rw [← List.append_nil (Metering.acts p u.journal)]; exact acts, phase⟩

end Tended

theorem Carries.of_external {op : Request} {r : Except Fault Unit}
    (external : w.rig.isExternal p = true) (h : Proceeds intruded p w u) :
    Carries intruded p op w r u := by
  rw [Carries, if_pos external]
  exact h

theorem Carries.of_turns {op : Request} {r : Except Fault Unit} {v : World S}
    (begins : op.begins (w.rig.phase p) = true) (turns : Turns intruded p op w r u)
    (rest : Proceeds intruded p u v) : Carries intruded p op w r v := by
  rw [Carries, if_neg (by simp [turns.internal]), if_pos begins]
  exact ⟨u, turns, rest⟩

theorem Carries.rest {op : Request} {r : Except Fault Unit}
    (ends : op.begins (w.rig.phase p) = false) : Carries intruded p op w r w := by
  unfold Carries
  split
  · exact .refl w
  · rw [if_neg (by simp [ends])]

/-- An operation asks a processor of the application, and deals with one of the rig itself. -/
theorem ensures_operation {asks : Run S α} {f : Processor → Run S α} {Q : α → World S → Prop}
    (asked : w.rig.isExternal p = true → Ensures asks w Q)
    (own : ∀ x, w.rig.processors[p]? = some x → w.rig.isExternal p = false →
      w.rig.phase p = x.phase → Ensures (f x) w Q) :
    Ensures (do
      let x ← Run.processor p
      if x.isExternal then asks else f x) w Q := by
  apply Ensures.processor
  intro x known
  have isExternal := Rig.isExternal_of known
  split
  case isTrue external => exact asked (isExternal.trans external)
  case isFalse internal =>
    exact own x known (isExternal.trans (by simpa using internal)) (Rig.phase_of known)

section Own

variable (answers : Answers (Proceeds intruded p) again)
include answers

theorem carries_ask (external : w.rig.isExternal p = true) (op : Request) :
    Ensures (ask app again p op) w (Carries intruded p op w) :=
  ((Proceeds.plain intruded p).ask answers p op w).mono fun _ _ => .of_external external

/-- The end of a transition: the phase is stored, then the subscribers are told. -/
theorem carries_settle {v : World S} {op : Request} {phase : Phase} {e : Event}
    {r : Except Fault Unit} (internal : w.rig.isExternal p = false)
    (begins : op.begins (w.rig.phase p) = true) (moments : ¬intruded → v.moments = w.moments)
    (transition : v.rig.isExternal p = false → ∃ us, acts p v.journal = acts p w.journal ++ us ∧
      Transition intruded op (w.rig.phase p) (us ++ [.moved phase, .announced e]) phase r) :
    Ensures (do Run.moveTo p phase; emit app again p e; return r) v
      (Carries intruded p op w) := by
  simp only [ensures_bind, ensures_moveTo, ensures_pure]
  intro y known
  refine (Proceeds.emit answers p e).mono fun _ w' => .of_turns begins ?_
  refine ⟨internal, moments, fun still => ?_⟩
  obtain ⟨us, acts, t⟩ := transition (by simpa using still)
  refine ⟨_, by simp [acts]; rfl, ?_⟩
  rw [World.record_rig, World.move_phase known]
  exact t

theorem carries_configure :
    Ensures (configure app again p) w (Carries intruded p .configure w) := by
  refine ensures_operation (carries_ask answers · _) fun x known internal phase => ?_
  split
  case h_1 unrealized =>
    apply Ensures.moveTo
    intro _ _
    apply Ensures.notice
    rw [unrealized] at phase
    refine carries_settle answers internal (by rw [phase]; rfl) (fun _ => rfl)
      fun _ => ⟨_, by simp; rfl, ?_⟩
    rw [phase]
    exact .configure
  case h_2 closed =>
    exact ensures_pure.mpr (.rest (by rw [phase, closed]; rfl))
  case h_3 => exact ensures_pure.mpr (.rest (by grind [Request.begins]))

theorem carries_start : Ensures (start app again p) w (Carries intruded p .start w) := by
  refine ensures_operation (carries_ask answers · _) fun x known internal phase => ?_
  split
  case h_1 realized =>
    rw [realized] at phase
    refine carries_settle answers internal (by rw [phase]; rfl) (fun _ => rfl)
      fun _ => ⟨[], by simp, ?_⟩
    rw [phase]
    exact .start
  all_goals exact ensures_pure.mpr (.rest (by grind [Request.begins]))

theorem carries_stop : Ensures (stop app again p) w (Carries intruded p .stop w) := by
  refine ensures_operation (carries_ask answers · _) fun x known internal phase => ?_
  split
  case h_1 started =>
    rw [started] at phase
    refine carries_settle answers internal (by rw [phase]; rfl) (fun _ => rfl)
      fun _ => ⟨[], by simp, ?_⟩
    rw [phase]
    exact .stop
  all_goals exact ensures_pure.mpr (.rest (by grind [Request.begins]))

theorem carries_realize (calm : intruded ∨ app.QuietPlugIns) :
    Ensures (realize app again p) w (Carries intruded p .realize w) := by
  refine ensures_operation (carries_ask answers · _) fun x known internal phase => ?_
  split
  case h_1 configured =>
    rw [configured] at phase
    apply Ensures.moveTo
    intro _ _
    have prepares := Proceeds.tended calm answers fun R t plugIns =>
      t.prepare (p := p) plugIns trivial
    refine Ensures.bind (prepares _) fun r v tending => ?_
    have begins : Request.realize.begins (w.rig.phase p) = true := by rw [phase]; rfl
    have moments (quiet : ¬intruded) : v.moments = w.moments :=
      (tended_moments tending quiet).trans rfl
    have realizing (still : v.rig.isExternal p = false) :
        ∃ us, Intrusion intruded us ∧
          acts p v.journal = acts p w.journal ++ .moved .realizing :: us := by
      obtain ⟨us, intrusion, acts⟩ := tended_realizing tending (World.move_phase known) still
      exact ⟨us, intrusion, by simp [acts]⟩
    cases r with
    | error f =>
      apply Ensures.processor
      intro _ _
      apply Ensures.notice
      refine carries_settle answers internal begins moments fun still => ?_
      obtain ⟨us, intrusion, acts⟩ := realizing still
      exact ⟨_, acts, phase ▸ intrusion.refused f⟩
    | ok =>
      apply Ensures.processor
      intro _ _
      apply Ensures.record
      apply Ensures.lockTracks
      apply Ensures.notice
      refine carries_settle answers internal begins moments fun still => ?_
      obtain ⟨us, intrusion, acts⟩ := realizing (by simpa using still)
      exact ⟨_, by simpa using acts, phase ▸ intrusion.realized⟩
  all_goals exact ensures_pure.mpr (.rest (by grind [Request.begins]))

theorem carries_close (calm : intruded ∨ app.QuietPlugIns) :
    Ensures (close app again p) w fun _ => Carries intruded p .close w (.ok ()) := by
  have asked (external : w.rig.isExternal p = true) : Ensures (do
      let _ ← ask app again p .close) w fun _ => Carries intruded p .close w (.ok ()) := by
    refine Ensures.bind ((Proceeds.plain intruded p).ask answers p _ w) fun _ _ next => ?_
    exact ensures_pure.mpr (.of_external external next)
  refine ensures_operation asked fun x known internal phase => ?_
  split
  case isTrue alive =>
    apply Ensures.moveTo
    intro _ _
    have finish {v : World S} (tending : Rests p (w.move p .closed) v ∨
        intruded ∧ Proceeds intruded p (w.move p .closed) v) (n : Notice) :
        Ensures (do Run.notice n; emit app again p .closed) v
          fun _ => Carries intruded p .close w (.ok ()) := by
      apply Ensures.notice
      refine (Proceeds.emit answers p _).mono fun _ w' =>
        .of_turns (by rw [phase]; exact alive) ?_
      have moments (quiet : ¬intruded) : v.moments = w.moments :=
        (tended_moments tending quiet).trans rfl
      refine ⟨internal, moments, fun still => ?_⟩
      obtain ⟨acts, closed⟩ := tended_closed tending (World.move_phase known) still
      refine ⟨[.moved .closed, .announced .closed], by simp [acts], ?_⟩
      rw [World.record_rig, World.record_rig, closed, phase]
      exact .close fun closed => by simp [closed, Phase.isClosed] at alive
    split
    · have keeps (R : World S → World S → Prop) (t : Tending (fun _ => True) R)
          (plugIns : PlugInsKeep app again R) :
          Keeps R (Run.each (closeTrack app again p) (List.range x.tracks.length)) :=
        t.each (t.closeTrack plugIns trivial) _
      refine Ensures.bind (Proceeds.tended calm answers keeps _) fun _ _ tending => ?_
      exact finish tending _
    · exact finish (.inl (.refl _)) _
  case isFalse closed =>
    exact ensures_pure.mpr (.rest (by rw [phase]; simpa [Request.begins] using closed))

end Own

namespace Proceeds

/-- To a processor, the transitions of the others are nothing. -/
theorem others (intruded : Prop) (p : ProcessorId) :
    Steady app (· ≠ p) (Proceeds (S := S) intruded p) where
  toPlain := plain intruded p
  holding q _ := (tending intruded p).holding q trivial
  opened := (tending intruded p).opened
  closed := (tending intruded p).closed
  setOpen := (tending intruded p).setOpen
  moveTo q other phase := of_rests fun w => ensures_moveTo.mpr fun _ _ => World.move_rests other
  readied q _ tracks := of_rests fun w => ensures_record.mpr (.record rfl)
  lockTracks q _ := of_rests (Rests.lockTracks q)
  emit again answers q other e w := (emit answers q e).mono fun _ w' rest =>
    (Rests.record (by simp [other])).proceeds.trans rest

theorem of_cases {m : ProcessorId → Run S α} (own : Keeps (Proceeds intruded p) (m p))
    (others : ∀ q, q ≠ p → Keeps (Proceeds intruded p) (m q)) (q : ProcessorId) :
    Keeps (Proceeds intruded p) (m q) := by
  by_cases same : q = p
  · exact same ▸ own
  · exact others q same

/-- A processor of the application may do anything. -/
theorem of_external (external : u.rig.isExternal p = true)
    (still : w.rig.isExternal p = u.rig.isExternal p) (moments : w.moments = u.moments) :
    Proceeds intruded p u w where
  leads :=
    { external := still.trans
      course := fun internal =>
        absurd ((still.trans external).symm.trans internal) Bool.noConfusion }
  moments _ := ⟨[], moments, .nil, by simp⟩

theorem lawful (calm : intruded ∨ app.QuietPlugIns) (p : ProcessorId) :
    Lawful app (Proceeds (S := S) intruded p) where
  toPlain := plain intruded p
  configure again answers :=
    of_cases (fun _ => (carries_configure answers).mono fun _ _ h => h.proceeds)
      fun _ => (others intruded p).configure answers
  realize again answers :=
    of_cases (fun _ => (carries_realize answers calm).mono fun _ _ h => h.proceeds)
      fun _ => (others intruded p).realize answers
  start again answers :=
    of_cases (fun _ => (carries_start answers).mono fun _ _ h => h.proceeds)
      fun _ => (others intruded p).start answers
  stop again answers :=
    of_cases (fun _ => (carries_stop answers).mono fun _ _ h => h.proceeds)
      fun _ => (others intruded p).stop answers
  close again answers :=
    of_cases (fun _ => (carries_close answers calm).mono fun _ _ h => h.proceeds)
      fun _ => (others intruded p).close answers
  enter q phase w := by
    apply Ensures.processor
    intro x known
    split
    case isTrue external =>
      refine ensures_moveTo.mpr fun _ _ => ?_
      by_cases same : q = p
      · subst same
        exact of_external ((Rig.isExternal_of known).trans external) World.move_isExternal rfl
      · exact (World.move_rests same).proceeds
    case isFalse => exact ensures_pure.mpr (refl w)
  emit again answers q e w := by
    apply Ensures.processor
    intro x known
    split
    case isTrue external =>
      refine (emit answers q e).mono fun _ _ rest => trans ?_ rest
      by_cases same : q = p
      · subst same
        exact of_external ((Rig.isExternal_of known).trans external) rfl rfl
      · exact (Rests.record (by simp [same])).proceeds
    case isFalse => exact ensures_pure.mpr (refl w)

end Proceeds

end Metering
