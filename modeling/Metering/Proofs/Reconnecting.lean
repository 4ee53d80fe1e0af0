import Metering.Proofs.Admission
/-!
A session takes one processor for capture in place of another. The one in use before is closed
before the new one is looked at. If it is the same, it is found closed, and the session is left with
none.
-/

namespace Metering

variable {S α : Type}

/-- A session is used by one more, and a processor has its place for capture. -/
def World.engage (w : World S) (s : SessionId) (p : ProcessorId) : World S :=
  (w.arrange s Session.more).arrange s fun y => { y with capture := some p }

section Closing

variable {app : Application S} (mute : app.Mute) {w : World S} {q : ProcessorId}
variable {zs : List Subscriber} {closed : Bool} {r : Rig} {depth : Nat}
include mute

/-- A processor of the rig is closed. -/
theorem Rig.Works.closes (works : r.Works q zs closed w.rig) :
    Yields (close app (perform app (depth + 1)) q) w fun _ w' => r.Works q zs true w'.rig := by
  obtain ⟨x, known, manned⟩ := works.manned
  apply Yields.processor known
  simp only [manned.internal, Bool.false_eq_true, if_false]
  cases closed with
  | true =>
    rw [if_neg (by simp [manned.phase])]
    exact yields_pure.mpr works
  | false =>
    rw [if_pos (by simp [manned.phase])]
    have tells {v : World S} (works : r.Works q zs true v.rig) : Yields (do
        Run.notice (.processor x.name .closed)
        Metering.emit app (perform app (depth + 1)) q .closed) v fun _ w' =>
          r.Works q zs true w'.rig := by
      apply yields_bind.mpr
      apply yields_notice.mpr
      exact emit (w := v.record _) mute works (.of_mere rfl)
    refine (works.moveTo .closed).bind ?_
    intro _ v works
    split
    case isFalse => exact tells works
    case isTrue =>
      have closes : Yields (Run.each (Metering.closeTrack app (perform app (depth + 1)) q)
          (List.range x.tracks.length)) v fun _ v' => r.Works q zs true v'.rig :=
        Yields.each (P := fun v => r.Works q zs true v.rig)
          (fun i _ v works => works.closeTrack mute i) works
      refine closes.bind ?_
      intro _ v works
      exact tells works

omit mute in
/-- What a run comes to, and what every run comes to. -/
theorem Yields.and {m : Run S α} {P Q : α → World S → Prop} (yields : Yields m w P)
    (ensures : Ensures m w Q) : Yields m w fun a w' => P a w' ∧ Q a w' := by
  obtain ⟨a, w', run, holds⟩ := yields
  exact ⟨a, w', run, holds, ensures a w' run⟩

omit mute in
/-- A processor was given up, and nothing else changed. One of the rig is closed, another one was
asked to close. -/
structure GivesUp (q : ProcessorId) (w w' : World S) : Prop where
  sessions : w'.rig.sessions = w.rig.sessions
  effects : w'.rig.effects.map LevelEffect.core = w.rig.effects.map LevelEffect.core
  others : ∀ p, p ≠ q → w'.rig.processors[p]? = w.rig.processors[p]?
  closed : w.rig.isExternal q = false → w'.rig.phase q = .closed
  asked : w.rig.isExternal q = true → .request q .close :: w.journal <:+ w'.journal

theorem close_givesUp {x : Processor} (known : w.rig.processors[q]? = some x) (free : x.held = [])
    (made : ∀ t ∈ x.tracks, ∀ y ∈ t.chain, y.Made w.rig.effects.length)
    (attended : w.rig.Attends x.subscribers) (equipped : w.rig.Equipped)
    (silent : x.isExternal = true → (app.request q .close).Silent) :
    Yields (close app (perform app (depth + 1)) q) w fun _ w' => GivesUp q w w' := by
  cases external : x.isExternal with
  | true =>
    have asks : Yields (ask app (perform app (depth + 1)) q .close) w fun _ w' =>
        w'.rig = w.rig ∧ .request q .close :: w.journal <:+ w'.journal := by
      apply Yields.record
      have lasts := Lasts.plain.toTame.run ((Lasts.lawful app).perform (depth + 1))
        (app.request q .close) (w.record (.request q .close))
      refine (((silent external).settles _).and lasts).mono ?_
      rintro _ w' ⟨⟨-, same⟩, later⟩
      exact ⟨same, later.journal⟩
    apply Yields.processor known
    rw [if_pos external]
    refine asks.bind ?_
    rintro _ v ⟨same, asked⟩
    refine yields_pure.mpr ⟨by rw [same], by rw [same], fun _ _ => by rw [same], ?_, fun _ => asked⟩
    intro internal
    cases internal.symm.trans ((Rig.isExternal_of known).trans external)
  | false =>
    have works : w.rig.Works q x.subscribers x.phase.isClosed w.rig :=
      .start known ⟨external, rfl, rfl, free, made⟩ attended equipped
    refine (works.closes mute).mono ?_
    intro _ w' works
    refine ⟨works.sessions, works.effects, works.others, fun _ => ?_, fun external' => ?_⟩
    · obtain ⟨y, there, manned⟩ := works.manned
      exact (Rig.phase_of there).trans (beq_iff_eq.mp manned.phase)
    · cases external'.symm.trans ((Rig.isExternal_of known).trans external)

end Closing

section Connecting

variable {app : Application S} {w v : World S} {p q : ProcessorId} {s : SessionId}
variable {x : Processor} {y : Session} {depth : Nat}

theorem World.engage_session (session : w.rig.sessions[s]? = some y) :
    (w.engage s p).rig.sessions[s]? = some { y.more with capture := some p } :=
  World.arrange_session (World.arrange_session session)

theorem World.engage_attends (whole : w.rig.Whole) (known : w.rig.processors[q]? = some x) :
    (w.engage s p).rig.Attends x.subscribers :=
  Rig.Attends.modifySession (Rig.Attends.modifySession (whole.attended q x known) s _) s _

/-- The session notes that it replaces a processor, and gives up the one in use before. -/
theorem replaces (mute : app.Mute) (whole : w.rig.Whole) (backed : w.rig.Backed)
    (session : w.rig.sessions[s]? = some y) (capture : y.capture = some q)
    (silent : w.rig.isExternal q = true → (app.request q .close).Silent) :
    Yields (do
      sessionNotice s .captureReplaced
      close app (perform app (depth + 1)) q) (w.engage s p) fun _ v =>
        ∃ n, GivesUp q ((w.engage s p).record (.notice n)) v := by
  have held : q < w.rig.processors.length := by
    apply whole.held s y session q
    simp [Session.processors, capture]
  have there : w.rig.processors[q]? = some w.rig.processors[q] := List.getElem?_eq_getElem held
  apply yields_bind.mpr
  apply Yields.session (World.engage_session session)
  apply yields_notice.mpr
  refine (close_givesUp (w := (w.engage s p).record _) mute there (whole.free q _ there) ?_ ?_ ?_
    ?_).mono ?_
  · exact backed _ (List.mem_of_getElem? there)
  · exact World.engage_attends whole there
  · exact whole.proper.equipped.engage s p
  · intro external
    exact silent ((Rig.isExternal_of there).trans external)
  · intro _ v gone
    exact ⟨_, gone⟩

/-- A processor that may be configured is taken in, after others have changed at most. -/
theorem takeCapture_yields (mute : app.Mute) (whole : w.rig.Whole) (backed : w.rig.Backed)
    (session : w.rig.sessions[s]? = some y) (known : w.rig.processors[p]? = some x)
    (internal : x.isExternal = false) (early : x.phase.isEarly = true)
    (sessions : v.rig.sessions = (w.engage s p).rig.sessions)
    (effects : v.rig.effects.map LevelEffect.core = w.rig.effects.map LevelEffect.core)
    (here : v.rig.processors[p]? = some x) :
    Yields (takeCapture app (perform app (depth + 3)) s p) v fun a v' => a = .ok () ∧
      v'.rig.sessions = (w.engage s p).rig.sessions ∧ v'.rig.phase p ≠ .closed ∧
      ∀ q, q ≠ p → v'.rig.processors[q]? = v.rig.processors[q]? := by
  have length : v.rig.effects.length = w.rig.effects.length := by
    simpa using congrArg List.length effects
  have manned : x.Manned x.subscribers false v.rig.effects.length :=
    .of_early internal early (whole.free p x known)
      (length ▸ backed x (List.mem_of_getElem? known))
  have attended : v.rig.Attends x.subscribers := by
    rw [Rig.Attends, sessions]
    exact World.engage_attends whole known
  have equipped : v.rig.Equipped := by
    rw [Rig.Equipped, sessions, length]
    exact whole.proper.equipped.engage s p
  have inUse : v.rig.sessions[s]? = some { y.more with capture := some p } :=
    sessions ▸ World.engage_session session
  have begins : v.rig.Works p x.subscribers false v.rig := .start here manned attended equipped
  have takes : Yields (takeCapture app (perform app (depth + 3)) s p) v fun a v' =>
      a = .ok () ∧ (v.rig.modifyProcessor p (·.joined (.capture s))).Works p
        (x.subscribers ++ [.capture s]) false v'.rig :=
    begins.takeIn mute (Rig.phase_of here ▸ early) rfl inUse _ _
  refine takes.mono ?_
  rintro a v' ⟨rfl, works⟩
  refine ⟨rfl, works.sessions.trans sessions, ?_, fun q other => ?_⟩
  · obtain ⟨x', there, manned⟩ := works.manned
    rw [Rig.phase_of there]
    intro closed
    have isOpen := manned.phase
    rw [closed] at isOpen
    cases isOpen
  · exact (works.others q other).trans (Rig.modifyProcessor_other (Ne.symm other))

/-- The session is left by the call, with the processor in its place. -/
theorem engage_left (session : w.rig.sessions[s]? = some y)
    (sessions : v.rig.sessions = (w.engage s p).rig.sessions) :
    (v.arrange s fun z => { z with users := y.more.users - 1 }).rig.sessions =
      w.rig.sessions.modify s fun z => { z with capture := some p } := by
  rw [World.arrange, sessions]
  exact sessions_changed session rfl

variable (mute : app.Mute) (whole : w.rig.Whole) (backed : w.rig.Backed)
variable (session : w.rig.sessions[s]? = some y) (used : 0 < y.users)
variable (known : w.rig.processors[p]? = some x) (internal : x.isExternal = false)
variable (early : x.phase.isEarly = true)
include mute whole backed session used known internal early

theorem connectCapture_first (free : y.capture = none) :
    Yields (duringUse app (perform app (depth + 3)) s
      (connectCapture app (perform app (depth + 3)) s p)) w fun a w' => a = .ok () ∧
        w'.rig.sessions = w.rig.sessions.modify s (fun z => { z with capture := some p }) ∧
        w'.rig.phase p ≠ .closed := by
  have begun : (w.arrange s Session.more).rig.sessions[s]? = some y.more :=
    World.arrange_session session
  apply Yields.inUse
  refine Yields.of_eq (connectCapture_none begun free) ?_
  refine (takeCapture_yields (v := w.engage s p) mute whole backed session known internal early
    rfl rfl known).mono ?_
  rintro a v ⟨rfl, sessions, unclosed, -⟩
  have inUse : v.rig.sessions[s]? = some { y.more with capture := some p } :=
    sessions ▸ World.engage_session session
  exact ⟨_, inUse, Session.many_more used, rfl, engage_left session sessions, unclosed⟩

theorem connectCapture_other (capture : y.capture = some q) (other : q ≠ p)
    (silent : w.rig.isExternal q = true → (app.request q .close).Silent) :
    Yields (duringUse app (perform app (depth + 3)) s
      (connectCapture app (perform app (depth + 3)) s p)) w fun a w' => a = .ok () ∧
        w'.rig.sessions = w.rig.sessions.modify s (fun z => { z with capture := some p }) ∧
        w'.rig.phase p ≠ .closed ∧
        (w.rig.isExternal q = false → w'.rig.phase q = .closed) ∧
        (w.rig.isExternal q = true → ∃ before, w.journal <:+ before ∧
          .request q .close :: before <:+ w'.journal) := by
  have begun : (w.arrange s Session.more).rig.sessions[s]? = some y.more :=
    World.arrange_session session
  apply Yields.inUse
  refine Yields.of_eq (connectCapture_some begun capture) ?_
  rw [← bind_assoc]
  refine (replaces mute whole backed session capture silent).bind ?_
  rintro _ v ⟨n, gone⟩
  -- The request to close the old processor was written before the new one is taken in. That the
  -- journal only grows keeps it there.
  have lasts : Ensures (takeCapture app (perform app (depth + 3)) s p) v _ :=
    Accounts.receive ((Accounts.abiding app).perform (depth + 3)) s p
  have takes : Yields (takeCapture app (perform app (depth + 3)) s p) v _ :=
    takeCapture_yields mute whole backed session known internal early gone.sessions gone.effects
      ((gone.others p (Ne.symm other)).trans known)
  refine (takes.and lasts).mono ?_
  rintro a v' ⟨⟨rfl, sessions, unclosed, others⟩, later, -⟩
  have inUse : v'.rig.sessions[s]? = some { y.more with capture := some p } :=
    sessions ▸ World.engage_session session
  refine ⟨_, inUse, Session.many_more used, rfl, engage_left session sessions, unclosed,
    fun mine => ?_, fun foreign => ?_⟩
  · have phase : v'.rig.phase q = v.rig.phase q := by
      rw [Rig.phase, others q other, Rig.phase]
    exact phase.trans (gone.closed mine)
  · exact ⟨_, List.suffix_cons _ _, (gone.asked foreign).trans later.journal⟩

omit early in
/-- The processor that the session has in use already is closed before it is looked at. -/
theorem connectCapture_same (capture : y.capture = some p) :
    Yields (duringUse app (perform app (depth + 3)) s
      (connectCapture app (perform app (depth + 3)) s p)) w fun a w' =>
        a = .error Phase.closed.refusal ∧
        w'.rig.sessions = w.rig.sessions.modify s (fun z => { z with capture := none }) ∧
        w'.rig.phase p = .closed := by
  have begun : (w.arrange s Session.more).rig.sessions[s]? = some y.more :=
    World.arrange_session session
  have mine : w.rig.isExternal p = false := (Rig.isExternal_of known).trans internal
  apply Yields.inUse
  refine Yields.of_eq (connectCapture_some begun capture) ?_
  rw [← bind_assoc]
  refine (replaces mute whole backed session capture (by simp [mine])).bind ?_
  rintro _ v ⟨n, gone⟩
  have closed : v.rig.phase p = .closed := gone.closed mine
  obtain ⟨z, here, phase⟩ := Rig.known_of_closed closed
  have inUse : v.rig.sessions[s]? = some { y.more with capture := some p } :=
    gone.sessions ▸ World.engage_session session
  have refuses : takeCapture app (perform app (depth + 3)) s p v = _ :=
    takeIn_refuses here (by rw [phase]; rfl) inUse _ _ _
  rw [phase] at refuses
  refine ⟨_, _, refuses, _, World.arrange_session inUse, Session.many_more used, rfl, ?_, ?_⟩
  · have sessions : v.rig.sessions = (w.engage s p).rig.sessions := gone.sessions
    change ((v.rig.sessions.modify s _).modify s _) = _
    rw [sessions]
    change ((((w.rig.sessions.modify s Session.more).modify s _).modify s _).modify s _) = _
    simp only [List.modify_modify_eq]
    exact modify_congr_of session rfl
  · exact (Rig.phase_of (World.modify_processor here)).trans phase

end Connecting

section Connection

variable {app : Application S} {program : Program S α} {depth : Nat} {st : S} {a : α}
variable {w : World S} {p : ProcessorId} {s : SessionId} {x : Processor} {y : Session}

/-- A session in use takes a processor that may be configured for capture, whatever program ran
before, unless it is the one in use already. It then has that processor, which is not closed, and
one that was in use before is closed, or was asked to close if it is not of the rig. The processor
in use already is closed instead, then refused for being closed, and the session has none. -/
theorem connectCapture_accepts_iff (mute : app.Mute)
    (run : program.run (perform app depth) { app := st } = .ok (a, w))
    (backed : w.rig.Backed) (session : w.rig.sessions[s]? = some y) (used : 0 < y.users)
    (known : w.rig.processors[p]? = some x) (internal : x.isExternal = false)
    (early : x.phase = .unrealized ∨ x.phase = .configured)
    (silent : ∀ q, y.capture = some q → w.rig.isExternal q = true →
      (app.request q .close).Silent) (further : Nat) :
    Yields (perform app (further + 4) (.connectCapture s p)) w fun r w' =>
      (r = .ok () ↔ y.capture ≠ some p) ∧
      match r with
      | .ok () =>
          w'.rig.sessions = w.rig.sessions.modify s (fun z => { z with capture := some p }) ∧
          w'.rig.phase p ≠ .closed ∧
          ∀ q, y.capture = some q →
            (w.rig.isExternal q = false → w'.rig.phase q = .closed) ∧
            (w.rig.isExternal q = true → ∃ before, w.journal <:+ before ∧
              .request q .close :: before <:+ w'.journal)
      | .error f => f = .invalidState "processor is already Closed" ∧
          w'.rig.sessions = w.rig.sessions.modify s (fun z => { z with capture := none }) ∧
          w'.rig.phase p = .closed := by
  have whole := Rig.whole_of_run run
  have isEarly : x.phase.isEarly = true := by
    obtain phase | phase := early
    · rw [phase]
      rfl
    · rw [phase]
      rfl
  cases capture : y.capture with
  | none =>
    have first : Yields (perform app (further + 4) (.connectCapture s p)) w _ :=
      connectCapture_first mute whole backed session used known internal isEarly capture
    refine first.mono ?_
    rintro _ w' ⟨rfl, sessions, unclosed⟩
    exact ⟨by simp, sessions, unclosed, nofun⟩
  | some q =>
    by_cases other : q = p
    · subst other
      have same : Yields (perform app (further + 4) (.connectCapture s q)) w _ :=
        connectCapture_same mute whole backed session used known internal capture
      refine same.mono ?_
      rintro _ w' ⟨rfl, sessions, closed⟩
      exact ⟨by simp, by simp [Phase.refusal, Phase.name], sessions, closed⟩
    · have replaces : Yields (perform app (further + 4) (.connectCapture s p)) w _ :=
        connectCapture_other mute whole backed session used known internal isEarly capture other
          (silent q capture)
      refine replaces.mono ?_
      rintro _ w' ⟨rfl, sessions, unclosed, closed, asked⟩
      refine ⟨by simp [other], sessions, unclosed, ?_⟩
      rintro _ ⟨⟩
      exact ⟨closed, asked⟩

end Connection

/-- A session uses a processor for capture that does not realize, because of a plug-in on its second
track. That track is disabled then, and there is another processor. -/
def Program.retried : Program Unit Unit := do
  let p ← .send (.newProcessor "p" [⟨.audio .telephone, true⟩, ⟨.audio .telephone, true⟩])
  let _ ← .send (.configure p)
  let _ ← .send (.setChain p 1 [.codec 0 "c"])
  let s ← .send (.newSession "s" ⟨"d", "d", false⟩ {})
  let _ ← .send (.connectCapture s p)
  let _ ← .send (.setEnabled p 1 false)
  let _ ← .send (.newProcessor "q" [⟨.audio .telephone, true⟩])

/-- The other processor takes the place of the first, which is closed. -/
theorem connectCapture_accepts_iff_other : ∃ w : World Unit,
    Program.retried.run (perform .averse 6) { app := () } = .ok ((), w) ∧
      Application.averse.Mute ∧ w.rig.slot 0 = some 0 ∧
      Yields (perform .averse 4 (.connectCapture 0 1)) w fun r w' => r = .ok () ∧
        w'.rig.slot 0 = some 1 ∧ w'.rig.phase 1 ≠ .closed ∧ w'.rig.phase 0 = .closed := by
  have ends : (Program.retried.run (perform .averse 6)).Ends { app := () } fun w =>
      w.rig.Backed ∧ w.rig.isExternal 0 = false ∧
      (w.rig.sessions[0]?).any (fun y => 0 < y.users && y.capture == some 0) ∧
      (w.rig.processors[1]?).any (fun x => !x.isExternal && x.phase == .unrealized) := by
    decide +kernel
  obtain ⟨_, w, run, backed, mine, session, processor⟩ := ends
  obtain ⟨y, session, kind⟩ := (Option.any_eq_true _ _).mp session
  obtain ⟨x, known, fresh⟩ := (Option.any_eq_true _ _).mp processor
  simp only [Bool.and_eq_true, decide_eq_true_eq, beq_iff_eq, Bool.not_eq_true'] at kind fresh
  have silent (q : ProcessorId) (_ : y.capture = some q) (_ : w.rig.isExternal q = true) :
      (Application.averse.request q .close).Silent := trivial
  refine ⟨w, run, Application.averse_mute, (Rig.slot_of session).trans kind.2, ?_⟩
  refine (connectCapture_accepts_iff Application.averse_mute run backed session kind.1 known fresh.1
    (.inl fresh.2) silent 0).mono ?_
  rintro r w' ⟨accepts, outcome⟩
  obtain rfl := accepts.mpr (by simp [kind.2])
  obtain ⟨sessions, unclosed, before⟩ := outcome
  refine ⟨rfl, ?_, unclosed, (before 0 kind.2).1 mine⟩
  simp [Rig.slot, sessions, session]

/-- The first processor would realize by now, but the session that has it refuses it. -/
theorem reconnection_refused : Application.averse.Mute ∧
    (Program.retried.run (perform .averse 6)).Ends { app := () } fun w =>
      w.rig.Backed ∧ w.rig.isExternal 0 = false ∧ w.rig.phase 0 = .configured ∧
      (w.rig.sessions[0]?).any (fun y => 0 < y.users && y.capture == some 0) ∧
      Yields (perform .averse 4 (.realize 0)) w (fun r _ => r = .ok ()) ∧
      Yields (perform .averse 4 (.connectCapture 0 0)) w fun r w' =>
        r = .error (.invalidState "processor is already Closed") ∧
        w'.rig.slot 0 = none ∧ w'.rig.phase 0 = .closed := by
  refine ⟨Application.averse_mute, ?_⟩
  decide +kernel

end Metering
