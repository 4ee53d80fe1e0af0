import Metering.Proofs.Commuting
import Metering.Proofs.Working
/-!
A session takes a processor in, whatever that comes to. It depends on the phase of the processor
alone whether it is refused; if it is not, the session goes on to drive it, and that it may fail to
realize is written down only. A stream is added by all of this or by none of it.
-/

namespace Metering

variable {S α : Type}

def Phase.refusal (a : Phase) : Fault := .invalidState ("processor is already " ++ a.name)

/-- A processor that may still be configured is not closed. -/
theorem Processor.Manned.of_early {x : Processor} {n : Nat} (internal : x.isExternal = false)
    (early : x.phase.isEarly = true) (free : x.held = [])
    (made : ∀ t ∈ x.tracks, ∀ y ∈ t.chain, y.Made n) : x.Manned x.subscribers false n where
  internal := internal
  subscribers := rfl
  phase := by
    cases phase : x.phase with
    | closed => simp [phase, Phase.isEarly] at early
    | _ => rfl
  free := free
  made := made

theorem Phase.not_isEarly_iff {a : Phase} :
    a.isEarly = false ↔ a ∈ [Phase.realizing, .realized, .started, .closed] := by
  cases a <;> decide

/-- An operation on a session comes to its end if what it does comes to its end and leaves the
session in use. The session is then used by one less. -/
theorem Yields.inUse {app : Application S} {again : {β : Type} → Call β → Run S β} {w : World S}
    {s : SessionId} {body : Run S α} {Q : α → World S → Prop}
    (does : Yields body (w.arrange s Session.more) fun a v => ∃ z, v.rig.sessions[s]? = some z ∧
      z.users ≠ 1 ∧ Q a (v.arrange s fun u => { u with users := z.users - 1 })) :
    Yields (Metering.duringUse app again s body) w Q := by
  apply yields_bind.mpr
  apply yields_modifySession.mpr
  refine does.bind ?_
  rintro a v ⟨z, known, many, holds⟩
  exact yields_bind.mpr ⟨(), _, releaseSession_eq known many again, yields_pure.mpr holds⟩

section TakingIn

variable {app : Application S} {w : World S} {p : ProcessorId} {zs : List Subscriber} {r : Rig}
variable {s : SessionId} {y : Session} {z : Subscriber} {x : Processor} {depth : Nat}

/-- A processor that is refused has subscribed by then, and the session goes back to what it was. -/
theorem takeIn_refuses {again : {β : Type} → Call β → Run S β}
    (known : w.rig.processors[p]? = some x) (late : x.phase.isEarly = false)
    (session : w.rig.sessions[s]? = some y) (body : Run S Unit) (failed : Fault → SessionNotice)
    (undo : Session → Session) :
    takeIn app again s p z body failed undo w = .ok (.error x.phase.refusal,
      ((w.subscribe p z).record (.notice (.session y.label (failed x.phase.refusal)))).arrange s
        undo) := by
  have joined : (w.subscribe p z).rig.processors[p]? = some (x.joined z) :=
    World.modify_processor known
  have refuses : beginConfiguration app again p body (w.subscribe p z) =
      .ok (.error x.phase.refusal, w.subscribe p z) := by
    refine (Run.bind_eq (Run.processor_eq joined) _).trans ?_
    have phase : (x.joined z).phase = x.phase := rfl
    rw [phase]
    cases here : x.phase with
    | unrealized | configuring | configured => simp [here, Phase.isEarly] at late
    | realizing | realized | started | closed => rfl
  have noted := Run.bind_eq (Run.session_eq (w := w.subscribe p z) session)
    fun y => Run.notice (.session y.label (failed x.phase.refusal))
  refine (Run.bind_eq (subscribe_eq known z) _).trans ?_
  refine (Run.bind_eq refuses _).trans ?_
  exact Run.bind_eq noted _

variable (mute : app.Mute)
include mute

namespace Rig.Works

/-- A session acts on a configured processor. -/
theorem react (works : r.Works p zs false w.rig) (of : z.session? = some s)
    (known : r.sessions[s]? = some y) :
    Yields (z.react app (perform app (depth + 3)) p) w fun _ w' =>
      r.Works p zs false w'.rig := by
  cases z with
  | watcher => cases of
  | capture t =>
    obtain rfl : t = s := Option.some.inj of
    exact works.captureUpdate known (.realizes mute)
  | stream t k =>
    obtain rfl : t = s := Option.some.inj of
    exact works.streamUpdate known (.realizes mute) k

/-- A processor that has not got beyond being configured is taken in. -/
theorem takeIn (works : r.Works p zs false w.rig) (early : (w.rig.phase p).isEarly = true)
    (of : z.session? = some s) (session : r.sessions[s]? = some y)
    (failed : Fault → SessionNotice) (undo : Session → Session) :
    Yields (takeIn app (perform app (depth + 3)) s p z (z.react app (perform app (depth + 3)) p)
      failed undo) w fun a w' => a = .ok () ∧
        (r.modifyProcessor p (·.joined z)).Works p (zs ++ [z]) false w'.rig := by
  obtain ⟨x, known, manned⟩ := works.manned
  refine Yields.bind (P := fun _ v => v = w.subscribe p z) ⟨(), _, subscribe_eq known z, rfl⟩ ?_
  rintro _ _ rfl
  have joined : (w.subscribe p z).rig.processors[p]? = some (x.joined z) :=
    World.modify_processor known
  have works : (r.modifyProcessor p (·.joined z)).Works p (zs ++ [z]) false
      (w.subscribe p z).rig := by
    refine ⟨works.sessions, works.effects, fun q other => ?_, ⟨_, joined, ?_⟩,
      works.attended.append of session, works.equipped⟩
    · exact (Rig.modifyProcessor_other (Ne.symm other)).trans
        ((works.others q other).trans (Rig.modifyProcessor_other (Ne.symm other)).symm)
    · exact ⟨manned.internal, congrArg (· ++ [z]) manned.subscribers, manned.phase, manned.free,
        manned.made⟩
  have early : (x.joined z).phase.isEarly = true := Rig.phase_of known ▸ early
  -- Only two of the phases make the session act: it configures a processor that is not, and sees at
  -- once to one that is.
  have begins : Yields (beginConfiguration app (perform app (depth + 3)) p
      (z.react app (perform app (depth + 3)) p)) (w.subscribe p z) fun a w' => a = .ok () ∧
        (r.modifyProcessor p (·.joined z)).Works p (zs ++ [z]) false w'.rig := by
    apply Yields.processor joined
    cases phase : (x.joined z).phase with
    | unrealized => exact works.configures mute ((Rig.phase_of joined).trans phase)
    | configuring => exact yields_pure.mpr ⟨rfl, works⟩
    | configured =>
      refine (works.react mute of session).bind ?_
      intro _ v works
      exact yields_pure.mpr ⟨rfl, works⟩
    | realizing | realized | started | closed => simp [phase, Phase.isEarly] at early
  refine begins.bind ?_
  rintro _ v ⟨rfl, works⟩
  exact yields_pure.mpr ⟨rfl, works⟩

end Rig.Works

end TakingIn

def Session.streamEffect (y : Session) : LevelEffect :=
  (LevelEffect.new y.config.effect).setListener y.streamListener

/-- A session that is used by one more, changed and used by one less again has only changed. -/
theorem sessions_changed {sessions : List Session} {s : SessionId} {y : Session}
    (known : sessions[s]? = some y) {f : Session → Session} {n : Nat}
    (users : ({ f y.more with users := n } : Session) = f y) :
    ((sessions.modify s Session.more).modify s f).modify s (fun z => { z with users := n }) =
      sessions.modify s f := by
  rw [List.modify_modify_eq, List.modify_modify_eq]
  exact modify_congr_of known users

/-- A session is used by one more and has a stream more, with an effect of its own. -/
def World.enlist (w : World S) (s : SessionId) (k : Ssrc) (p : ProcessorId) (y : Session) :
    World S :=
  ((w.arrange s Session.more).fit y.streamEffect).arrange s
    (·.addStream k ⟨p, w.rig.effects.length⟩)

section Adding

variable {app : Application S} {w : World S} {p : ProcessorId} {s : SessionId} {k : Ssrc}
variable {x : Processor} {y : Session} {again : {β : Type} → Call β → Run S β} {depth : Nat}

variable (session : w.rig.sessions[s]? = some y) (used : 0 < y.users)
include session

theorem World.enlist_session : (w.enlist s k p y).rig.sessions[s]? =
    some (y.more.addStream k ⟨p, w.rig.effects.length⟩) :=
  World.arrange_session (World.arrange_session session)

theorem addStream_enlists (absent : y.hasStream k = false) :
    addStream app again s k p (w.arrange s Session.more) =
      takeStream app again s k p (w.enlist s k p y) :=
  addStream_absent (x := y.more) (World.arrange_session session) absent

include used

/-- A stream whose name is taken is refused, and nothing has changed. -/
theorem addStream_taken (present : y.hasStream k = true) :
    Yields (duringUse app again s (addStream app again s k p)) w fun a w' =>
      (∃ f, a = .error f) ∧ w'.rig = w.rig := by
  have begun : (w.arrange s Session.more).rig.sessions[s]? = some y.more :=
    World.arrange_session session
  have back : ((w.arrange s Session.more).arrange s fun u =>
      { u with users := y.more.users - 1 }).rig = w.rig :=
    congrArg (fun ss => { w.rig with sessions := ss }) (sessions_back session)
  exact Yields.inUse ⟨_, _, addStream_present begun present, y.more, begun,
    Session.many_more used, ⟨_, rfl⟩, back⟩

/-- A processor that is refused has a subscriber more, and an effect was made for nothing. -/
theorem addStream_refuses (absent : y.hasStream k = false)
    (known : w.rig.processors[p]? = some x) (late : x.phase.isEarly = false) :
    Yields (duringUse app again s (addStream app again s k p)) w fun a w' =>
      a = .error x.phase.refusal ∧ w'.rig = { w.rig with
        effects := w.rig.effects ++ [y.streamEffect]
        processors := w.rig.processors.modify p (·.joined (.stream s k)) } := by
  have undone : (y.more.addStream k ⟨p, w.rig.effects.length⟩).removeStream k = y.more :=
    Session.removeStream_addStream (x := y.more) absent _
  have added := World.enlist_session (k := k) (p := p) session
  have refuses : takeStream app again s k p (w.enlist s k p y) = _ :=
    takeIn_refuses (w := w.enlist s k p y) known late added _ _ _
  apply Yields.inUse
  refine ⟨_, _, (addStream_enlists session absent).trans refuses, y.more, ?_,
    Session.many_more used, rfl, ?_⟩
  · exact (World.arrange_session added).trans (congrArg some undone)
  · have back : (((w.rig.sessions.modify s Session.more).modify s
        (·.addStream k ⟨p, w.rig.effects.length⟩)).modify s (·.removeStream k)).modify s
          (fun u => { u with users := y.more.users - 1 }) = w.rig.sessions := by
      rw [List.modify_modify_eq, List.modify_modify_eq, List.modify_modify_eq]
      apply modify_of_fixed session
      exact congrArg (fun z : Session => { z with users := y.more.users - 1 }) undone
    exact congrArg (fun ss => { w.rig with
      sessions := ss
      effects := w.rig.effects ++ [y.streamEffect]
      processors := w.rig.processors.modify p (·.joined (.stream s k)) }) back

/-- A processor that is not refused is driven on, and the stream is added whatever comes of that. -/
theorem addStream_admits (mute : app.Mute) (whole : w.rig.Whole) (backed : w.rig.Backed)
    (absent : y.hasStream k = false) (known : w.rig.processors[p]? = some x)
    (internal : x.isExternal = false) (early : x.phase.isEarly = true) :
    Yields (duringUse app (perform app (depth + 3)) s
      (addStream app (perform app (depth + 3)) s k p)) w fun a w' => a = .ok () ∧
        w'.rig.sessions = w.rig.sessions.modify s (·.addStream k ⟨p, w.rig.effects.length⟩) ∧
        w'.rig.effects.map LevelEffect.core =
          (w.rig.effects ++ [y.streamEffect]).map LevelEffect.core := by
  have added := World.enlist_session (k := k) (p := p) session
  have manned : x.Manned x.subscribers false (w.enlist s k p y).rig.effects.length := by
    refine .of_early internal early (whole.free p x known) fun t member z inside => ?_
    have made := backed x (List.mem_of_getElem? known) t member z inside
    have more : (w.enlist s k p y).rig.effects.length = w.rig.effects.length + 1 :=
      List.length_append
    cases z with
    | effect e => exact more ▸ Nat.lt_succ_of_lt made
    | codec => trivial
  have attended : (w.enlist s k p y).rig.Attends x.subscribers :=
    Rig.Attends.modifySession (Rig.Attends.modifySession (whole.attended p x known) s _) s _
  have begins : (w.enlist s k p y).rig.Works p x.subscribers false (w.enlist s k p y).rig :=
    .start known manned attended (whole.proper.equipped.enlist s k p y.streamEffect)
  have takes : Yields (takeStream app (perform app (depth + 3)) s k p) (w.enlist s k p y)
      fun a v => a = .ok () ∧ ((w.enlist s k p y).rig.modifyProcessor p
        (·.joined (.stream s k))).Works p (x.subscribers ++ [.stream s k]) false v.rig :=
    begins.takeIn mute (Rig.phase_of (r := (w.enlist s k p y).rig) known ▸ early) rfl added _ _
  apply Yields.inUse
  refine Yields.of_eq (addStream_enlists session absent) (takes.mono ?_)
  rintro _ v ⟨rfl, works⟩
  refine ⟨_, works.session added, Session.many_more used, rfl, ?_, works.effects⟩
  have sessions : v.rig.sessions = (w.rig.sessions.modify s Session.more).modify s
      (·.addStream k ⟨p, w.rig.effects.length⟩) := works.sessions
  rw [World.arrange, sessions]
  exact sessions_changed session rfl

end Adding

section Levels

variable {r r' : Rig} {y : Session}

/-- What an effect shows belongs to its core. -/
theorem effect_of_core {es es' : List LevelEffect}
    (same : es'.map LevelEffect.core = es.map LevelEffect.core) {e : EffectId} {z : LevelEffect}
    (known : es[e]? = some z) : ∃ z', es'[e]? = some z' ∧ z'.listener = z.listener ∧
      z'.calculator = z.calculator := by
  have here : (es'[e]?).map LevelEffect.core = some z.core := by
    rw [← List.getElem?_map, same, List.getElem?_map, known, Option.map_some]
  obtain ⟨z', there, core⟩ := Option.map_eq_some_iff.mp here
  exact ⟨z', there, (congrArg (·.listener) core :), (congrArg (·.calculator) core :)⟩

/-- The levels shown of a session are those of its effects. -/
theorem Rig.levels_of_prefix (effects : r.effects <+: r'.effects)
    (equipped : ∀ e ∈ y.effects, e < r.effects.length) : r'.levels y = r.levels y := by
  have last (e : EffectId) (member : e ∈ y.effects) : r'.lastLevel e = r.lastLevel e := by
    obtain ⟨more, same⟩ := effects
    rw [Rig.lastLevel, ← same, List.getElem?_append_left (equipped e member), Rig.lastLevel]
  have capture := last y.localEffect List.mem_cons_self
  have streams : y.streams.filterMap (fun e => r'.lastLevel e.2.effect) =
      y.streams.filterMap fun e => r.lastLevel e.2.effect := by
    apply List.filterMap_congr
    intro st member
    exact last _ (Session.mem_effects.mpr (.inr ⟨st, member, rfl⟩))
  simp only [Rig.levels, capture, streams]

end Levels

section Admission

variable {app : Application S} {program : Program S α} {depth : Nat} {st : S} {a : α}
variable {w : World S} {p : ProcessorId} {s : SessionId} {x : Processor} {y : Session}

/-- A stream is added to a session in use, or nothing of the session changes, whatever program ran
before. It is refused exactly if its name is taken or its processor has got beyond being configured.
If its name is taken, nothing of the rig changes; if the processor is refused, that has a subscriber
more, and an effect was made that nobody holds. Otherwise the session has the stream more, with a
new effect, and all effects have their listeners and levels still, whether or not the processor
could be realized and started. -/
theorem addStream_all_or_nothing (mute : app.Mute)
    (run : program.run (perform app depth) { app := st } = .ok (a, w))
    (backed : w.rig.Backed) (session : w.rig.sessions[s]? = some y) (used : 0 < y.users)
    (known : w.rig.processors[p]? = some x) (internal : x.isExternal = false) (k : Ssrc)
    (further : Nat) :
    Yields (perform app (further + 4) (.addStream s k p)) w fun r w' =>
      ((∃ f, r = .error f) ↔ y.hasStream k = true ∨
        x.phase ∈ [.realizing, .realized, .started, .closed]) ∧
      match r with
      | .error _ => w'.rig = (if y.hasStream k then w.rig else { w.rig with
            effects := w.rig.effects ++ [y.streamEffect]
            processors := w.rig.processors.modify p (·.joined (.stream s k)) }) ∧
          ∀ z ∈ w.rig.sessions, w'.rig.levels z = w.rig.levels z
      | .ok () => w'.rig.sessions =
            w.rig.sessions.modify s (·.addStream k ⟨p, w.rig.effects.length⟩) ∧
          (∃ e, w'.rig.effects[w.rig.effects.length]? = some e ∧ e.listener = y.streamListener ∧
            e.last = none ∧ e.calculator.config = y.config.effect) ∧
          ∀ (e : EffectId) (z : LevelEffect), w.rig.effects[e]? = some z →
            ∃ z', w'.rig.effects[e]? = some z' ∧ z'.listener = z.listener ∧ z'.last = z.last := by
  have whole := Rig.whole_of_run run
  have same {r : Rig} (effects : w.rig.effects <+: r.effects) :
      ∀ z ∈ w.rig.sessions, r.levels z = w.rig.levels z := by
    intro z member
    obtain ⟨t, there⟩ := List.mem_iff_getElem?.mp member
    exact Rig.levels_of_prefix effects (whole.proper.equipped t z there)
  cases present : y.hasStream k with
  | true =>
    have taken : Yields (perform app (further + 4) (.addStream s k p)) w _ :=
      addStream_taken session used present
    refine taken.mono ?_
    rintro _ w' ⟨⟨f, rfl⟩, still⟩
    exact ⟨by simp, by simpa using still, same (still ▸ List.prefix_rfl)⟩
  | false =>
    cases early : x.phase.isEarly with
    | false =>
      have refused : Yields (perform app (further + 4) (.addStream s k p)) w _ :=
        addStream_refuses session used present known early
      refine refused.mono ?_
      rintro _ w' ⟨rfl, after⟩
      refine ⟨iff_of_true ⟨_, rfl⟩ (.inr (Phase.not_isEarly_iff.mp early)), ?_, same ?_⟩
      · simpa using after
      · rw [after]
        exact List.prefix_append ..
    | true =>
      have admits : Yields (perform app (further + 4) (.addStream s k p)) w _ :=
        addStream_admits session used mute whole backed present known internal early
      refine admits.mono ?_
      rintro _ w' ⟨rfl, sessions, effects⟩
      have late : x.phase ∉ [Phase.realizing, .realized, .started, .closed] := by
        rw [← Phase.not_isEarly_iff, early]
        nofun
      refine ⟨by simp [late], sessions, ?_, fun e z there => ?_⟩
      · obtain ⟨e, there, listener, calculator⟩ :=
          effect_of_core effects List.getElem?_concat_length
        exact ⟨e, there, listener, congrArg (·.last) calculator, congrArg (·.config) calculator⟩
      · have within := (List.getElem?_eq_some_iff.mp there).1
        obtain ⟨z', here, listener, calculator⟩ :=
          effect_of_core effects ((List.getElem?_append_left within).trans there)
        exact ⟨z', here, listener, congrArg (·.last) calculator⟩

end Admission

/-- The plug-ins take no format. -/
def Application.averse : Application Unit :=
  { Application.silent Unit with offer := fun _ _ => .done none }

theorem Application.averse_mute : Application.averse.Mute where
  event _ _ _ := trivial
  offer _ _ := trivial
  opens _ := trivial
  close _ := trivial

/-- A processor with a plug-in on the second of two audio tracks, and a session with a listener for
its streams. -/
def Program.readied : Program Unit Unit := do
  let p ← .send (.newProcessor "p" [⟨.audio .telephone, true⟩, ⟨.audio .telephone, true⟩])
  let _ ← .send (.configure p)
  let _ ← .send (.setChain p 1 [.codec 0 "c"])
  let s ← .send (.newSession "s" ⟨"d", "d", false⟩ {})
  .send (.setStreamListener s (some 5))

/-- The processor does not realize, and the stream is added all the same. -/
theorem addStream_all_or_nothing_averse : ∃ w : World Unit,
    Program.readied.run (perform .averse 3) { app := () } = .ok ((), w) ∧
      Application.averse.Mute ∧
      Yields (perform .averse 4 (.addStream 0 7 0)) w fun r w' => r = .ok () ∧
        w'.rig.phase 0 = .configured ∧
        w'.rig.sessions = w.rig.sessions.modify 0 (·.addStream 7 ⟨0, 1⟩) ∧
        ∃ e, w'.rig.effects[1]? = some e ∧ e.listener = some 5 ∧ e.last = none := by
  have ends : (Program.readied.run (perform .averse 3)).Ends { app := () } fun w =>
      w.rig.Backed ∧ w.rig.effects.length = 1 ∧
      (w.rig.sessions[0]?).any (fun y => 0 < y.users && y.streamListener == some 5) ∧
      (w.rig.processors[0]?).any (fun x => !x.isExternal) ∧
      Yields (perform .averse 4 (.addStream 0 7 0)) w fun r w' =>
        r = .ok () ∧ w'.rig.phase 0 = .configured := by
    decide +kernel
  obtain ⟨_, w, run, backed, effects, session, processor, r, v, ran, rfl, phase⟩ := ends
  obtain ⟨y, session, kind⟩ := (Option.any_eq_true _ _).mp session
  obtain ⟨x, known, internal⟩ := (Option.any_eq_true _ _).mp processor
  simp only [Bool.and_eq_true, decide_eq_true_eq, beq_iff_eq] at kind
  obtain ⟨r, v', ran', -, outcome⟩ := addStream_all_or_nothing Application.averse_mute run backed
    session kind.1 known (by simpa using internal) 7 0
  obtain ⟨rfl, rfl⟩ : r = .ok () ∧ v' = v := by simpa using ran'.symm.trans ran
  obtain ⟨sessions, ⟨e, there, listener, last, -⟩, -⟩ := outcome
  rw [effects] at sessions there
  exact ⟨w, run, Application.averse_mute, _, _, ran, rfl, phase, sessions, e, there,
    listener.trans kind.2, last⟩

end Metering
