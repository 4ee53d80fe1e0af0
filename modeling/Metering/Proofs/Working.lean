import Metering.Proofs.Clearing
import Metering.Proofs.Installing
import Metering.Proofs.Registering
import Metering.Proofs.Unhindered
/-!
Work on one processor. Sessions drive a processor that they have subscribed to, and whether they
succeed depends on its plug-ins. If listeners and plug-ins make no call, the work comes to its end
in any case. The processor keeps its subscribers and is not closed by it, and everything else is
left alone: the other processors, the sessions, and what effects have measured.
-/

namespace Metering

variable {S α : Type}

/-- Neither watchers nor plug-ins make a call when a processor is driven. -/
structure Application.Mute (app : Application S) : Prop where
  event : ∀ x p e, (app.event x p e).Silent
  offer : ∀ c f, (app.offer c f).Silent
  opens : ∀ c, (app.opens c).Silent
  close : ∀ c, (app.close c).Silent

/-- A processor of the rig with these subscribers, closed or not, whose plug-ins are there. None of
its chains is held. -/
structure Processor.Manned (zs : List Subscriber) (closed : Bool) (effects : Nat)
    (x : Processor) : Prop where
  internal : x.isExternal = false
  subscribers : x.subscribers = zs
  phase : x.phase.isClosed = closed
  free : x.held = []
  made : ∀ t ∈ x.tracks, ∀ y ∈ t.chain, y.Made effects

/-- There was work on a processor, and on nothing else. -/
structure Rig.Works (p : ProcessorId) (zs : List Subscriber) (closed : Bool) (r r' : Rig) :
    Prop where
  sessions : r'.sessions = r.sessions
  effects : r'.effects.map LevelEffect.core = r.effects.map LevelEffect.core
  others : ∀ q, q ≠ p → r'.processors[q]? = r.processors[q]?
  manned : ∃ x, r'.processors[p]? = some x ∧ x.Manned zs closed r.effects.length
  attended : r.Attends zs
  equipped : r.Equipped

/-- Nothing is different but what effects have been offered. -/
structure Rig.Offered (r r' : Rig) : Prop where
  rest : r' = { r with effects := r'.effects }
  effects : r'.effects.map LevelEffect.core = r.effects.map LevelEffect.core

section Manned

variable {zs : List Subscriber} {closed : Bool} {n : Nat} {x : Processor}

/-- What becomes of a track has plug-ins that are there. -/
theorem Processor.Manned.modifyTrack (manned : x.Manned zs closed n) (i : Nat) {f : Track → Track}
    (made : ∀ t, (∀ y ∈ t.chain, y.Made n) → ∀ y ∈ (f t).chain, y.Made n) :
    (x.modifyTrack i f).Manned zs closed n where
  internal := manned.internal
  subscribers := manned.subscribers
  phase := manned.phase
  free := manned.free
  made t member := by
    obtain ⟨j, track⟩ := List.mem_iff_getElem?.mp member
    simp only [Processor.modifyTrack, List.getElem?_modify] at track
    obtain ⟨u, before, rfl⟩ := Option.map_eq_some_iff.mp track
    have old := manned.made u (List.mem_of_getElem? before)
    split
    · exact made u old
    · exact old

theorem Processor.Manned.lock (manned : x.Manned zs closed n) : x.lock.Manned zs closed n where
  internal := manned.internal
  subscribers := manned.subscribers
  phase := manned.phase
  free := manned.free
  made t member := by
    obtain ⟨u, before, rfl⟩ := List.mem_map.mp member
    exact manned.made u before

theorem Processor.Manned.enter (manned : x.Manned zs closed n) (a : Phase) :
    Processor.Manned zs a.isClosed n { x with phase := a } where
  internal := manned.internal
  subscribers := manned.subscribers
  phase := rfl
  free := manned.free
  made := manned.made

end Manned

/-- What an effect is offered is no matter of its listener or of what it has measured. -/
theorem LevelEffect.offer_core (z : LevelEffect) (f : Format) : (z.offer f).2.core = z.core := by
  unfold LevelEffect.offer
  split
  · rfl
  · rfl

namespace Rig.Offered

variable {r r' r'' : Rig}

theorem refl (r : Rig) : r.Offered r := ⟨rfl, rfl⟩

theorem of_same (same : r' = r) : r.Offered r' := same ▸ refl r

theorem trans (first : r.Offered r') (second : r'.Offered r'') : r.Offered r'' where
  rest := by rw [second.rest, first.rest]
  effects := second.effects.trans first.effects

theorem effects_length (offered : r.Offered r') : r'.effects.length = r.effects.length := by
  simpa using congrArg List.length offered.effects

theorem modify (offered : r.Offered r') (p : ProcessorId) (f : Processor → Processor) :
    (r.modifyProcessor p f).Offered (r'.modifyProcessor p f) where
  rest := by
    change { r' with processors := r'.processors.modify p f } = _
    rw [offered.rest]
    rfl
  effects := offered.effects

theorem become {e : EffectId} {z z' : LevelEffect} (known : r.effects[e]? = some z)
    (core : z'.core = z.core) : r.Offered (r.modifyEffect e fun _ => z') where
  rest := rfl
  effects := by
    have same : (r.effects.modify e fun _ => z').map LevelEffect.core =
        (r.effects.map LevelEffect.core).modify e id := map_modify fun u there => by
      obtain rfl := Option.some.inj (known.symm.trans there)
      exact core
    exact same.trans (List.modify_id ..)

end Rig.Offered

namespace Rig.Works

variable {p : ProcessorId} {zs : List Subscriber} {closed : Bool} {r r' : Rig} {x : Processor}

theorem start (known : r.processors[p]? = some x) (manned : x.Manned zs closed r.effects.length)
    (attended : r.Attends zs) (equipped : r.Equipped) : r.Works p zs closed r :=
  ⟨rfl, rfl, fun _ _ => rfl, ⟨x, known, manned⟩, attended, equipped⟩

theorem effects_length (works : r.Works p zs closed r') :
    r'.effects.length = r.effects.length := by
  simpa using congrArg List.length works.effects

theorem session (works : r.Works p zs closed r') {s : SessionId} {y : Session}
    (known : r.sessions[s]? = some y) : r'.sessions[s]? = some y := works.sessions ▸ known

theorem modify {closed' : Bool} (works : r.Works p zs closed r') {f : Processor → Processor}
    (keeps : ∀ x : Processor, x.Manned zs closed r.effects.length →
      (f x).Manned zs closed' r.effects.length) :
    r.Works p zs closed' (r'.modifyProcessor p f) where
  sessions := works.sessions
  effects := works.effects
  others q other := (Rig.modifyProcessor_other (Ne.symm other)).trans (works.others q other)
  manned := by
    obtain ⟨x, known, manned⟩ := works.manned
    exact ⟨_, Rig.modifyProcessor_known known f, keeps x manned⟩
  attended := works.attended
  equipped := works.equipped

/-- A session is used by one more. -/
theorem more (works : r.Works p zs closed r') (s : SessionId) :
    (r.modifySession s Session.more).Works p zs closed (r'.modifySession s Session.more) where
  sessions := congrArg (·.modify s Session.more) works.sessions
  effects := works.effects
  others := works.others
  manned := works.manned
  attended := works.attended.modifySession s _
  equipped := works.equipped.modifySession s fun _ _ => .inl

/-- It gives the session up again. -/
theorem less {s : SessionId} {y : Session}
    (works : (r.modifySession s Session.more).Works p zs closed r')
    (attended : r.Attends zs) (equipped : r.Equipped) (known : r.sessions[s]? = some y) :
    r.Works p zs closed
      (r'.modifySession s fun z => { z with users := y.more.users - 1 }) where
  sessions := by
    rw [Rig.modifySession, works.sessions]
    exact sessions_back known
  effects := works.effects
  others := works.others
  manned := works.manned
  attended := attended
  equipped := equipped

end Rig.Works

section Plain

variable {app : Application S} {again : {β : Type} → Call β → Run S β} {w : World S}
variable {p : ProcessorId} {zs : List Subscriber} {closed : Bool} {r : Rig} {s : SessionId}
variable {y : Session} (works : r.Works p zs closed w.rig)
include works

namespace Rig.Works

/-- A program that makes no call leaves the rig alone. -/
theorem silent {P : α → Prop} {program : Program S α} (silent : program.Answers P) :
    Yields (program.run again) w fun _ w' => r.Works p zs closed w'.rig := by
  refine (silent.settles w).mono ?_
  rintro _ w' ⟨-, same⟩
  rwa [same]

theorem moveTo (a : Phase) :
    Yields (Run.moveTo p a) w fun _ w' => r.Works p zs a.isClosed w'.rig := by
  obtain ⟨x, known, -⟩ := works.manned
  apply Yields.processor known
  refine yields_bind.mpr (yields_modifyProcessor.mpr (yields_record.mpr ?_))
  exact works.modify fun x manned => manned.enter a

theorem sessionNotice (known : r.sessions[s]? = some y) (n : SessionNotice) :
    Yields (sessionNotice s n) w fun _ w' => r.Works p zs closed w'.rig :=
  Yields.session (works.session known) (yields_notice.mpr works)

/-- An effect that is there is installed, or it is not. -/
theorem install {e : EffectId} (there : e < r.effects.length) (side : Side) :
    Yields (install app again p e side) w fun _ w' => r.Works p zs closed w'.rig := by
  obtain ⟨x, known, manned⟩ := works.manned
  have free (i : Nat) : i ∉ w.rig.held p := by
    rw [Rig.held_of known, manned.free]
    exact List.not_mem_nil
  obtain ⟨n, runs⟩ :=
    install_eq (trackControls_internal known manned.internal) (fun i _ => free i) e side
  refine ⟨_, _, runs, ?_⟩
  cases Option.bind _ effectPlace with
  | none => exact works
  | some i =>
    refine works.modify fun x manned => manned.modifyTrack i fun t _ => ?_
    rintro y (_ | ⟨_, ⟨⟩⟩)
    exact there

/-- A session in use works on the processor while it is used by one more. -/
theorem whileUsed (there : s < r.sessions.length) {body : Run S Unit} {depth : Nat}
    (does : ∀ v : World S, (r.modifySession s Session.more).Works p zs closed v.rig →
      Yields body v fun _ v' => (r.modifySession s Session.more).Works p zs closed v'.rig) :
    Yields (whileUsed (perform app (depth + 1)) s body) w fun _ w' =>
      r.Works p zs closed w'.rig := by
  obtain ⟨y, known⟩ : ∃ y, r.sessions[s]? = some y := ⟨_, List.getElem?_eq_getElem there⟩
  apply Yields.session (works.session known)
  split
  case isFalse => exact yields_pure.mpr works
  case isTrue used =>
    apply yields_bind.mpr
    apply yields_modifySession.mpr
    refine (does (w.arrange s Session.more) (works.more s)).bind ?_
    intro _ v done
    have here : v.rig.sessions[s]? = some y.more := done.session (Rig.modifySession_known known)
    have less := done.less works.attended works.equipped known
    exact ⟨(), _, releaseSession_eq here (Session.many_more used) (perform app depth), less⟩

end Rig.Works

end Plain

section Preparing

variable {app : Application S} {again : {β : Type} → Call β → Run S β} {w : World S}
variable {p : ProcessorId} {zs : List Subscriber} {closed : Bool} {r : Rig} (mute : app.Mute)
include mute

namespace Rig.Offered

omit mute in
theorem silent {P : α → Prop} {program : Program S α} (silent : program.Answers P) :
    Yields (program.run again) w fun _ w' => w.rig.Offered w'.rig :=
  (silent.settles w).mono fun _ _ after => of_same after.2

theorem offer {x : PlugIn} (made : x.Made w.rig.effects.length) (f : Format) :
    Yields (Chain.offer app again x f) w fun _ w' => w.rig.Offered w'.rig := by
  cases x with
  | effect e =>
    have known := List.getElem?_eq_getElem made
    apply Yields.effect known
    refine yields_bind.mpr (yields_modifyEffect.mpr (yields_pure.mpr ?_))
    exact become known (LevelEffect.offer_core _ f)
  | codec c name => exact Yields.record (silent (w := w.record _) (mute.offer c f))

theorem negotiate {chain : List PlugIn} (made : ∀ x ∈ chain, x.Made w.rig.effects.length)
    (f : Format) :
    Yields (Chain.negotiate app again chain f) w fun _ w' => w.rig.Offered w'.rig := by
  induction chain generalizing f w with
  | nil => exact yields_pure.mpr (refl _)
  | cons x xs ih =>
    refine (offer mute (made x List.mem_cons_self) f).bind ?_
    intro answer v offered
    cases answer with
    | none => exact yields_pure.mpr offered
    | some g =>
      apply Yields.record
      have made (y : PlugIn) (member : y ∈ xs) : y.Made v.rig.effects.length :=
        offered.effects_length ▸ made y (List.mem_cons_of_mem _ member)
      exact (ih (w := v.record _) made g).mono fun _ _ rest => offered.trans rest

theorem closeAll (chain : List PlugIn) :
    Yields (Chain.closeAll app again chain) w fun _ w' => w.rig.Offered w'.rig := by
  refine Yields.each (P := fun v => w.rig.Offered v.rig) ?_ (refl _)
  intro x _ v offered
  cases x with
  | effect e => exact yields_bind.mpr (yields_pure.mpr (yields_record.mpr offered))
  | codec c name =>
    apply Yields.record
    refine (silent (w := v.record _) (mute.close c)).bind ?_
    intro _ v' closed
    exact yields_record.mpr (offered.trans closed)

theorem openAll (before chain : List PlugIn) :
    Yields (Chain.openAll app again before chain) w fun _ w' => w.rig.Offered w'.rig := by
  induction chain generalizing before w with
  | nil => exact yields_pure.mpr (refl _)
  | cons x xs ih =>
    have opens : Yields (Chain.openPlugIn app again x) w fun _ v => w.rig.Offered v.rig := by
      cases x with
      | effect e =>
        apply yields_bind.mpr
        apply yields_pure.mpr
        exact Yields.record (yields_pure.mpr (refl _))
      | codec c name =>
        apply Yields.record
        refine (silent (w := w.record _) (mute.opens c)).bind ?_
        intro a v opened
        cases a with
        | ok => exact Yields.record (yields_pure.mpr opened)
        | error f => exact yields_pure.mpr opened
    refine opens.bind ?_
    intro a v opened
    cases a with
    | ok => exact (ih (before ++ [x])).mono fun _ _ rest => opened.trans rest
    | error f =>
      apply yields_bind.mpr
      apply yields_notice.mpr
      refine (closeAll (w := v.record _) mute before).bind ?_
      intro _ v' closed
      exact yields_pure.mpr (opened.trans closed)

end Rig.Offered

namespace Rig.Works

variable (works : r.Works p zs closed w.rig)
include works

omit mute in
theorem offered {r' : Rig} (offered : w.rig.Offered r') : r.Works p zs closed r' where
  sessions := offered.rest ▸ works.sessions
  effects := offered.effects.trans works.effects
  others := offered.rest ▸ works.others
  manned := offered.rest ▸ works.manned
  attended := works.attended
  equipped := works.equipped

omit mute in
/-- Plug-ins of a chain are called, which is held meanwhile. -/
theorem holding {i : Nat} {calls : Run S α}
    (does : ∀ v : World S, v.rig.effects = w.rig.effects →
      Yields calls v fun _ v' => v.rig.Offered v'.rig) :
    Yields (Run.holding p i calls) w fun _ w' => r.Works p zs closed w'.rig := by
  obtain ⟨x, known, manned⟩ := works.manned
  refine (Yields.holding (R := fun u _ v => u.rig.Offered v.rig) known (by simp [manned.free])
    (fun offered => offered.modify p _) (does _ rfl)).mono ?_
  intro _ w' offered
  exact works.offered offered

theorem negotiateTracks (is : List Nat) :
    Yields (negotiateTracks app again p is) w fun _ w' => r.Works p zs closed w'.rig := by
  induction is generalizing w with
  | nil => exact yields_pure.mpr works
  | cons i is ih =>
    obtain ⟨x, known, manned⟩ := works.manned
    apply Yields.track known
    cases track : x.tracks[i]? with
    | none => exact ih works
    | some t =>
      have made : ∀ y ∈ t.chain, y.Made w.rig.effects.length :=
        works.effects_length ▸ manned.made t (List.mem_of_getElem? track)
      refine (works.holding fun v same => Offered.negotiate mute (same ▸ made) t.format).bind ?_
      intro a v works
      cases a with
      | ok => exact ih works
      | error f => exact yields_pure.mpr works

theorem closeTrack (i : Nat) :
    Yields (closeTrack app again p i) w fun _ w' => r.Works p zs closed w'.rig := by
  obtain ⟨x, known, -⟩ := works.manned
  apply Yields.track known
  cases x.tracks[i]? with
  | none => exact yields_pure.mpr works
  | some t =>
    dsimp only
    split
    case isFalse => exact yields_pure.mpr works
    case isTrue =>
      apply yields_bind.mpr
      apply yields_modifyProcessor.mpr
      refine holding (w := w.modify p _) ?_ fun _ _ => Offered.closeAll mute t.chain
      exact works.modify fun x manned => manned.modifyTrack i fun _ => id

theorem openTracks (before is : List Nat) :
    Yields (openTracks app again p before is) w fun _ w' => r.Works p zs closed w'.rig := by
  induction is generalizing before w with
  | nil => exact yields_pure.mpr works
  | cons i is ih =>
    have opens : Yields (openTrack app again p i) w fun _ v => r.Works p zs closed v.rig := by
      obtain ⟨x, known, -⟩ := works.manned
      apply Yields.track known
      cases x.tracks[i]? with
      | none => exact yields_pure.mpr works
      | some t =>
        refine (works.holding fun _ _ => Offered.openAll mute [] t.chain).bind ?_
        intro a v works
        cases a with
        | ok =>
          refine yields_bind.mpr (yields_modifyProcessor.mpr (yields_pure.mpr ?_))
          exact works.modify fun x manned => manned.modifyTrack i fun _ => id
        | error f => exact yields_pure.mpr works
    refine opens.bind ?_
    intro a v works
    cases a with
    | ok => exact ih works (before ++ [i])
    | error f =>
      have closes : Yields (Run.each (Metering.closeTrack app again p) before) v fun _ v' =>
          r.Works p zs closed v'.rig :=
        Yields.each (P := fun v => r.Works p zs closed v.rig)
          (fun i _ v works => works.closeTrack mute i) works
      refine closes.bind ?_
      intro _ v' works
      exact yields_pure.mpr works

/-- The chains of a processor are prepared, or that fails. -/
theorem prepare : Yields (prepare app again p) w fun _ w' => r.Works p zs closed w'.rig := by
  obtain ⟨x, known, -⟩ := works.manned
  apply Yields.processor known
  refine (works.negotiateTracks mute x.enabledTracks).bind ?_
  intro a v works
  cases a with
  | ok => exact works.openTracks mute [] x.enabledTracks
  | error f => exact yields_pure.mpr works

end Rig.Works

end Preparing

/-- What sessions do about an event of the processor comes to its end: the calls by which they drive
it further are answered. -/
structure Handles (again : {β : Type} → Call β → Run S β) (p : ProcessorId) (zs : List Subscriber)
    (closed : Bool) (e : Event) : Prop where
  realize : e = .configured → ∀ (r : Rig) (v : World S), r.Works p zs closed v.rig →
    Yields (again (.realize p)) v fun _ v' => r.Works p zs closed v'.rig
  start : e = .realized → ∀ (r : Rig) (v : World S), r.Works p zs closed v.rig →
    Yields (again (.start p)) v fun _ v' => r.Works p zs closed v'.rig

section Hearing

variable {app : Application S} {w : World S} {p : ProcessorId} {zs : List Subscriber}
variable {closed : Bool} {r : Rig} {s : SessionId} {y : Session} {e : Event}

/-- Nobody acts on other events. -/
theorem Handles.of_mere {again : {β : Type} → Call β → Run S β} (mere : e.isMere = true) :
    Handles again p zs closed e where
  realize same := by subst same; cases mere
  start same := by subst same; cases mere

namespace Rig.Works

section Updates

variable {again : {β : Type} → Call β → Run S β} (works : r.Works p zs closed w.rig)
variable (known : r.sessions[s]? = some y) (handles : Handles again p zs closed e)
include works known

/-- A session writes down that its processor refused. -/
theorem noted (a : Except Fault Unit) (n : Fault → SessionNotice) :
    Yields (match a with
      | .ok () => pure ()
      | .error f => Metering.sessionNotice s (n f)) w fun _ w' => r.Works p zs closed w'.rig := by
  cases a with
  | ok => exact yields_pure.mpr works
  | error f => exact works.sessionNotice known _

include handles

theorem captureUpdate :
    Yields (captureUpdate app again s p e) w fun _ w' => r.Works p zs closed w'.rig := by
  apply Yields.session (works.session known)
  cases e with
  | configured =>
    have there : y.localEffect < r.effects.length := works.equipped s y known _ List.mem_cons_self
    refine (works.install there .capture).bind ?_
    intro _ v works
    refine (handles.realize rfl r v works).bind ?_
    intro a v works
    exact works.noted known a _
  | _ => exact works.sessionNotice known _

theorem streamUpdate (k : Ssrc) :
    Yields (streamUpdate app again s k p e) w fun _ w' => r.Works p zs closed w'.rig := by
  cases e with
  | configured =>
    have installs : Yields (streamConfigured app again s k p) w fun _ v =>
        r.Works p zs closed v.rig := by
      apply Yields.session (works.session known)
      cases present : y.stream? k with
      | some st =>
        have there : st.effect < r.effects.length := by
          apply works.equipped s y known
          exact Session.mem_effects.mpr (.inr ⟨(k, st), Session.mem_of_stream? present, rfl⟩)
        refine (works.install there .stream).bind ?_
        intro _ v works
        exact yields_pure.mpr works
      | none => exact works.sessionNotice known _
    refine installs.bind ?_
    intro _ v works
    refine (handles.realize rfl r v works).bind ?_
    intro a v works
    exact works.noted known a _
  | realized =>
    apply Yields.session (works.session known)
    split
    case isFalse => exact yields_pure.mpr works
    case isTrue =>
      refine (handles.start rfl r w works).bind ?_
      intro a v works
      exact works.noted known a _
  | _ => exact works.sessionNotice known _

end Updates

variable (mute : app.Mute) (works : r.Works p zs closed w.rig) {depth : Nat}
variable (handles : Handles (perform app (depth + 1)) p zs closed e)
include mute works handles

theorem hear {z : Subscriber} (attended : ∀ t ∈ z.session?, t < r.sessions.length) :
    Yields (hear app (perform app (depth + 1)) p e z) w fun _ w' =>
      r.Works p zs closed w'.rig := by
  have known (t : SessionId) (there : t < r.sessions.length) :
      (r.modifySession t Session.more).sessions[t]? = some (r.sessions[t]).more :=
    Rig.modifySession_more (List.getElem?_eq_getElem there)
  cases z with
  | watcher x => exact works.silent (mute.event x p e)
  | capture t =>
    have there := attended t rfl
    exact works.whileUsed there fun v works => works.captureUpdate (known t there) handles
  | stream t k =>
    have there := attended t rfl
    exact works.whileUsed there fun v works => works.streamUpdate (known t there) handles k

/-- An event is told to all subscribers, who may drive the processor further. -/
theorem emit : Yields (emit app (perform app (depth + 1)) p e) w fun _ w' =>
    r.Works p zs closed w'.rig := by
  obtain ⟨x, known, manned⟩ := works.manned
  apply Yields.record
  apply Yields.processor (w := w.record (.announced p e)) known
  refine Yields.each (P := fun v => r.Works p zs closed v.rig) ?_ works
  intro z member v works
  apply Yields.record
  refine hear (w := v.record (.told z p e)) mute works handles ?_
  exact works.attended z (manned.subscribers ▸ member)

end Rig.Works

end Hearing

section Driving

variable {app : Application S} (mute : app.Mute) {w : World S} {p : ProcessorId}
variable {zs : List Subscriber} {r : Rig} {depth : Nat}
include mute

namespace Rig.Works

variable (works : r.Works p zs false w.rig)
include works

/-- A processor comes to a phase in which it is not closed, and its subscribers hear of it. -/
theorem settle {a : Phase} (open_ : a.isClosed = false) {e : Event}
    (handles : Handles (perform app (depth + 1)) p zs false e) {α : Type} (b : α) :
    Yields (do Run.moveTo p a; Metering.emit app (perform app (depth + 1)) p e; return b) w
      fun c w' => c = b ∧ r.Works p zs false w'.rig := by
  refine (works.moveTo a).bind ?_
  intro _ v works
  rw [open_] at works
  refine (works.emit mute handles).bind ?_
  intro _ v works
  exact yields_pure.mpr ⟨rfl, works⟩

/-- A processor is started, or it refuses. -/
theorem starts : Yields (Metering.start app (perform app (depth + 1)) p) w fun _ w' =>
    r.Works p zs false w'.rig := by
  obtain ⟨x, known, manned⟩ := works.manned
  apply Yields.processor known
  simp only [manned.internal, Bool.false_eq_true, if_false]
  cases x.phase with
  | realized => exact (works.settle mute rfl (.of_mere rfl) _).mono fun _ _ => And.right
  | _ => exact yields_pure.mpr works

/-- A processor is realized, or it goes back to what it was, or it refuses. -/
theorem realize : Yields (realize app (perform app (depth + 2)) p) w fun _ w' =>
    r.Works p zs false w'.rig := by
  obtain ⟨x, known, manned⟩ := works.manned
  apply Yields.processor known
  simp only [manned.internal, Bool.false_eq_true, if_false]
  cases x.phase with
  | configured =>
    refine (works.moveTo .realizing).bind ?_
    intro _ v works
    refine Yields.bind (works.prepare mute) ?_
    intro a v works
    obtain ⟨y, here, -⟩ := works.manned
    cases a with
    | error f =>
      apply Yields.processor here
      apply yields_bind.mpr
      apply yields_notice.mpr
      exact (settle (w := v.record _) mute works rfl (.of_mere rfl) _).mono fun _ _ => And.right
    | ok =>
      apply Yields.processor here
      apply Yields.record
      apply yields_bind.mpr
      apply yields_modifyProcessor.mpr
      apply yields_bind.mpr
      apply yields_notice.mpr
      have locked := works.modify (f := Processor.lock) fun _ manned => manned.lock
      have handles : Handles (perform app (depth + 2)) p zs false .realized :=
        ⟨nofun, fun _ r v works => works.starts mute⟩
      exact (settle (w := ((v.record _).modify p _).record _) mute locked rfl handles _).mono
        fun _ _ => And.right
  | _ => exact yields_pure.mpr works

end Rig.Works

omit mute in
/-- Sessions that are told of a configured processor may have it realized. -/
theorem Handles.realizes (mute : app.Mute) :
    Handles (perform app (depth + 3)) p zs false .configured :=
  ⟨fun _ _ _ works => works.realize mute, nofun⟩

/-- A processor that was not configured yet is configured. -/
theorem Rig.Works.configures (works : r.Works p zs false w.rig)
    (unrealized : w.rig.phase p = .unrealized) :
    Yields (configure app (perform app (depth + 3)) p) w fun a w' => a = .ok () ∧
      r.Works p zs false w'.rig := by
  obtain ⟨x, known, manned⟩ := works.manned
  have unrealized : x.phase = .unrealized := (Rig.phase_of known).symm.trans unrealized
  apply Yields.processor known
  simp only [manned.internal, unrealized, Bool.false_eq_true, if_false]
  refine (works.moveTo .configuring).bind ?_
  intro _ v works
  apply yields_bind.mpr
  apply yields_notice.mpr
  exact settle (w := v.record _) mute works rfl (.realizes mute) _

end Driving

end Metering
