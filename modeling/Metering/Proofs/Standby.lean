import Metering.Proofs.Bringing
import Metering.Proofs.Holdings
import Metering.Proofs.Stale
/-!
Events that move nobody, and events that start a processor. Most subscribers do nothing about an
event but write it down, sessions too; a session that plays a stream may start its processor when
that has realized. In either case the telling comes to its end, and what it makes of the rig can be
written down, apart from which chains are open and what effects have seen.
-/

namespace Metering

variable {S α : Type}

/-- A program that makes no call, and answers in this way only, whatever it finds. -/
def Program.Answers (P : α → Prop) : Program S α → Prop
  | .done a => P a
  | .update _ next => ∀ b, (next b).Answers P
  | .look _ next => ∀ b, (next b).Answers P
  | .note _ next => next.Answers P
  | .call .. => False

abbrev Program.Silent (p : Program S α) : Prop := p.Answers fun _ => True

/-- Nobody that the application has to do with calls back on an event, or on a request. -/
structure Application.Silences (app : Application S) : Prop where
  event : ∀ x p e, (app.event x p e).Silent
  request : ∀ p q, (app.request p q).Silent
  close : ∀ c, (app.close c).Silent

/-- A session acts when it is told the event: it brings a configured processor up, and starts the
realized processor of a stream if it is set to. -/
def Rig.drives (r : Rig) (e : Event) (z : Subscriber) : Bool :=
  z.drivenBy e && (z.session?).any fun s => (r.sessions[s]?).any fun y =>
    0 < y.users && (e == .configured || y.config.startStreams)

/-- All sessions among the subscribers are there. -/
def Rig.Attends (r : Rig) (zs : List Subscriber) : Prop :=
  ∀ z ∈ zs, ∀ s ∈ z.session?, s < r.sessions.length

/-- The rigs differ in nothing but which chains are open and what effects have seen. -/
structure Rig.Near (r r' : Rig) : Prop where
  agrees : r.Agrees r'
  sessions : r'.sessions = r.sessions
  effects : r'.effects.length = r.effects.length

/-- A program that makes no call comes to its end, and the rig is as it was. -/
theorem Program.Answers.settles {again : {β : Type} → Call β → Run S β} {P : α → Prop}
    {p : Program S α} (answers : p.Answers P) (w : World S) :
    Yields (p.run again) w fun a w' => P a ∧ w'.rig = w.rig := by
  induction p generalizing w with
  | done a => exact yields_pure.mpr ⟨answers, rfl⟩
  | update f next ih => exact ih _ (answers _) { w with app := (f w.app).2 }
  | look f next ih => exact ih _ (answers _) { w with moments := w.now :: w.moments }
  | note text next ih => exact Yields.record (ih answers _)
  | call c next ih => exact answers.elim

/-- What each part of a run leaves as it was is so after all of them. -/
theorem Yields.each {β : Type} {P : World S → Prop} {f : β → Run S Unit} {bs : List β}
    {w : World S} (keeps : ∀ b ∈ bs, ∀ v, P v → Yields (f b) v fun _ v' => P v') (before : P w) :
    Yields (Run.each f bs) w fun _ w' => P w' := by
  induction bs generalizing w with
  | nil => exact yields_pure.mpr before
  | cons b bs ih =>
    refine (keeps b List.mem_cons_self w before).bind ?_
    intro _ v after
    exact ih (fun c member => keeps c (List.mem_cons_of_mem _ member)) after

theorem Rig.Attends.modifySession {r : Rig} {zs : List Subscriber} (attended : r.Attends zs)
    (s : SessionId) (f : Session → Session) : (r.modifySession s f).Attends zs := by
  intro z member t of
  simpa [Rig.modifySession] using attended z member t of

/-- A session of the rig attends, too. -/
theorem Rig.Attends.append {r : Rig} {zs : List Subscriber} (attended : r.Attends zs)
    {z : Subscriber} {s : SessionId} (of : z.session? = some s) {y : Session}
    (session : r.sessions[s]? = some y) : r.Attends (zs ++ [z]) := by
  intro z' member t of'
  obtain before | last := List.mem_append.mp member
  · exact attended z' before t of'
  · obtain rfl := List.mem_singleton.mp last
    obtain rfl := Option.some.inj (of.symm.trans of')
    exact (List.getElem?_eq_some_iff.mp session).1

section Subscribers

variable {r : Rig} {e : Event} {z : Subscriber} {s : SessionId} {y : Session}

theorem Rig.modifySession_more (known : r.sessions[s]? = some y) :
    (r.modifySession s Session.more).sessions[s]? = some y.more := by
  simp [Rig.modifySession, known]

/-- Nothing matters of a session but whether it is in use, and how it is configured. -/
theorem Rig.drives_modifySession (known : r.sessions[s]? = some y) {f : Session → Session}
    (users : 0 < (f y).users ↔ 0 < y.users) (config : (f y).config = y.config) :
    (r.modifySession s f).drives e z = r.drives e z := by
  have same (t : SessionId) : ((r.modifySession s f).sessions[t]?).any (fun y =>
      0 < y.users && (e == .configured || y.config.startStreams)) =
      (r.sessions[t]?).any fun y => 0 < y.users && (e == .configured || y.config.startStreams) := by
    by_cases here : s = t
    · subst here
      simp [Rig.modifySession, known, users, config]
    · simp [Rig.modifySession, here]
  simp only [Rig.drives, same]

/-- A session that is in use does not act only because it is not one that would. -/
theorem Rig.rests_of_still (still : r.drives e z = false) (of : z.session? = some s)
    (known : r.sessions[s]? = some y) (used : 0 < y.users) (driven : z.drivenBy e = true) :
    e = .realized ∧ y.config.startStreams = false := by
  simp only [Rig.drives, driven, of, known, Option.any_some, used, Bool.true_and, decide_true,
    Bool.or_eq_false_iff, beq_eq_false_iff_ne] at still
  refine ⟨?_, still.2⟩
  cases z with
  | watcher => cases of
  | capture =>
    cases e with
    | configured => exact absurd rfl still.1
    | _ => cases driven
  | stream =>
    cases e with
    | configured => exact absurd rfl still.1
    | realized => rfl
    | _ => cases driven

theorem Rig.drives_mere (mere : e.isMere = true) : r.drives e z = false := by
  have none : z.drivenBy e = false := by
    cases e with
    | configured | realized => cases mere
    | _ => cases z <;> rfl
  simp [Rig.drives, none]

/-- Whoever starts a realized processor plays a stream through it. -/
theorem Rig.of_drives_realized (drives : r.drives .realized z = true) :
    ∃ s k y, z = .stream s k ∧ r.sessions[s]? = some y ∧ 0 < y.users ∧
      y.config.startStreams = true := by
  cases z with
  | watcher => cases drives
  | capture => cases drives
  | stream s k =>
    cases known : r.sessions[s]? with
    | none => simp [Rig.drives, Subscriber.session?, known] at drives
    | some y =>
      have acts : 0 < y.users ∧ y.config.startStreams = true := by
        simpa [Rig.drives, Subscriber.drivenBy, Subscriber.session?, known] using drives
      exact ⟨s, k, y, rfl, known, acts⟩

end Subscribers

namespace Rig.Near

variable {r r' r'' : Rig} {p : ProcessorId} {x y : Processor} {w : World S}

theorem refl (r : Rig) : r.Near r := ⟨.refl r, rfl, rfl⟩

theorem trans (first : r.Near r') (second : r'.Near r'') : r.Near r'' :=
  ⟨first.agrees.trans second.agrees, second.sessions.trans first.sessions,
    second.effects.trans first.effects⟩

theorem known (near : r.Near r') (known : r.processors[p]? = some x) :
    ∃ y, r'.processors[p]? = some y ∧ y.shut = x.shut := by
  obtain ⟨y, there, same⟩ := Rig.Agrees.origin (r := r') (Eq.symm near.agrees) known
  exact ⟨y, there, same.symm⟩

/-- A processor is found as it was, but for its tracks. -/
theorem meets (near : r.Near r') (known : r.processors[p]? = some x) :
    ∃ y, r'.processors[p]? = some y ∧ y.phase = x.phase ∧ y.subscribers = x.subscribers ∧
      y.isExternal = x.isExternal := by
  obtain ⟨y, there, same⟩ := near.known known
  exact ⟨y, there, (congrArg (·.phase) same :), (congrArg (·.subscribers) same :),
    (congrArg (·.isExternal) same :)⟩

theorem session (near : r.Near r') {s : SessionId} {y : Session}
    (known : r.sessions[s]? = some y) : r'.sessions[s]? = some y := near.sessions ▸ known

/-- A change that has nothing to do with which chains are open. -/
theorem modify (near : r.Near r') {f : Processor → Processor}
    (apart : ∀ x, (f x).shut = f x.shut) :
    (r.modifyProcessor p f).Near (r'.modifyProcessor p f) where
  agrees := near.agrees.modify p apart
  sessions := near.sessions
  effects := near.effects

theorem modifySession (near : r.Near r') (s : SessionId) (f : Session → Session) :
    (r.modifySession s f).Near (r'.modifySession s f) where
  agrees := near.agrees
  sessions := congrArg (·.modify s f) near.sessions
  effects := near.effects

theorem modifyEffect (near : r.Near r') (e : EffectId) (f : LevelEffect → LevelEffect) :
    r.Near (r'.modifyEffect e f) where
  agrees := near.agrees
  sessions := near.sessions
  effects := by simp [Rig.modifyEffect, near.effects]

theorem setOpen (near : r.Near w.rig) (i : Nat) (isOpen : Bool) :
    r.Near (w.modify p fun x => x.modifyTrack i fun t => { t with isOpen }).rig where
  agrees := near.agrees.trans (.setOpen w p i isOpen)
  sessions := near.sessions
  effects := near.effects

end Rig.Near

namespace Rig.Near

variable {app : Application S} {r : Rig} {w : World S} {s : SessionId} {y : Session}
variable {p : ProcessorId} {x : Processor} {again : {β : Type} → Call β → Run S β}

theorem moveTo (near : r.Near w.rig) (known : r.processors[p]? = some x) (a : Phase) :
    Yields (Run.moveTo p a) w fun _ w' => (r.setPhase p a).Near w'.rig := by
  obtain ⟨z, there, -⟩ := near.known known
  apply Yields.processor there
  exact yields_bind.mpr (yields_modifyProcessor.mpr (yields_record.mpr (near.modify fun _ => rfl)))

theorem sessionNotice (near : r.Near w.rig) (known : r.sessions[s]? = some y) (n : SessionNotice) :
    Yields (sessionNotice s n) w fun _ w' => r.Near w'.rig :=
  Yields.session (near.session known) (yields_notice.mpr near)

/-- An additional user of a session in use leaves it again. -/
theorem release (near : (r.modifySession s Session.more).Near w.rig)
    (known : r.sessions[s]? = some y) (used : 0 < y.users) :
    Yields (releaseSession app again s) w fun _ w' => r.Near w'.rig := by
  have more : w.rig.sessions[s]? = some y.more := near.session (Rig.modifySession_more known)
  refine ⟨(), _, releaseSession_eq more (Session.many_more used) again, near.agrees, ?_,
    near.effects⟩
  change w.rig.sessions.modify s _ = r.sessions
  rw [near.sessions]
  apply List.ext_getElem?
  intro t
  by_cases here : s = t
  · subst here
    simp [Rig.modifySession, known]
  · simp [Rig.modifySession, here]

/-- What a session in use does about an event. -/
theorem whileUsed (near : r.Near w.rig) (known : r.sessions[s]? = some y) (used : 0 < y.users)
    {body : Run S Unit} {r' : Rig} (kept : r'.sessions = r.sessions) {depth : Nat}
    (does : ∀ v : World S, (r.modifySession s Session.more).Near v.rig →
      Yields body v fun _ v' => (r'.modifySession s Session.more).Near v'.rig) :
    Yields (whileUsed (perform app (depth + 1)) s body) w fun _ w' => r'.Near w'.rig := by
  apply Yields.session (near.session known)
  rw [if_pos used]
  apply yields_bind.mpr
  apply yields_modifySession.mpr
  refine (does _ (near.modifySession s Session.more)).bind ?_
  intro _ v done
  have leaves : Yields (releaseSession app (perform app depth) s) _ fun _ w' => r'.Near w'.rig :=
    release done (kept ▸ known) used
  exact leaves

/-- A session that rests about an event does so in use, and does nothing if it has ended. -/
theorem whileUsed_rests (near : r.Near w.rig) (there : s < r.sessions.length) {body : Run S Unit}
    {depth : Nat} (rests : ∀ y, r.sessions[s]? = some y → 0 < y.users → ∀ v : World S,
      (r.modifySession s Session.more).Near v.rig →
      Yields body v fun _ v' => (r.modifySession s Session.more).Near v'.rig) :
    Yields (Metering.whileUsed (perform app (depth + 1)) s body) w fun _ w' => r.Near w'.rig := by
  obtain ⟨y, known⟩ : ∃ y, r.sessions[s]? = some y := ⟨_, List.getElem?_eq_getElem there⟩
  by_cases used : 0 < y.users
  · exact near.whileUsed known used rfl (rests y known used)
  · apply Yields.session (near.session known)
    rw [if_neg used]
    exact yields_pure.mpr near

theorem captureUpdate_rests (near : r.Near w.rig) (known : r.sessions[s]? = some y) {e : Event}
    (rests : (Subscriber.capture s).drivenBy e = false) :
    Yields (captureUpdate app again s p e) w fun _ w' => r.Near w'.rig := by
  apply Yields.session (near.session known)
  cases e with
  | configured => cases rests
  | _ => exact near.sessionNotice known _

theorem streamUpdate_rests (near : r.Near w.rig) (known : r.sessions[s]? = some y) {k : Ssrc}
    {e : Event} (rests : (Subscriber.stream s k).drivenBy e = true →
      e = .realized ∧ y.config.startStreams = false) :
    Yields (streamUpdate app again s k p e) w fun _ w' => r.Near w'.rig := by
  cases e with
  | configured => cases (rests rfl).1
  | realized =>
    apply Yields.session (near.session known)
    simp only [(rests rfl).2, Bool.false_eq_true, if_false]
    exact yields_pure.mpr near
  | _ => exact near.sessionNotice known _

/-- An event is told to the subscribers that are known. -/
theorem emit (near : r.Near w.rig) (known : r.processors[p]? = some x) {e : Event}
    {Q : Unit → World S → Prop} (tells : ∀ v : World S, r.Near v.rig →
      Yields (Run.each (deliver app again p e) x.subscribers) v Q) :
    Yields (Metering.emit app again p e) w Q := by
  apply Yields.record
  obtain ⟨u, there, -, subscribers, -⟩ := near.meets known
  apply Yields.processor (w := w.record (.announced p e)) there
  rw [subscribers]
  exact tells (w.record (.announced p e)) near

variable (silent : app.Silences) {e : Event} {depth : Nat}
include silent

/-- A subscriber that the event does not move does no more than write it down. -/
theorem hear_still (near : r.Near w.rig) {z : Subscriber}
    (attended : ∀ s ∈ z.session?, s < r.sessions.length) (still : r.drives e z = false) :
    Yields (hear app (perform app (depth + 1)) p e z) w fun _ w' => r.Near w'.rig := by
  cases z with
  | watcher x =>
    refine ((silent.event x p e).settles w).mono ?_
    rintro _ w' ⟨-, same⟩
    rwa [same]
  | capture s =>
    apply near.whileUsed_rests (attended s rfl)
    intro y known used v inUse
    refine inUse.captureUpdate_rests (Rig.modifySession_more known) ?_
    by_contra driven
    obtain ⟨rfl, -⟩ := Rig.rests_of_still still rfl known used (by simpa using driven)
    exact driven rfl
  | stream s k =>
    apply near.whileUsed_rests (attended s rfl)
    intro y known used v inUse
    have rests := Rig.rests_of_still still rfl known used
    exact inUse.streamUpdate_rests (Rig.modifySession_more known) rests

/-- An event is told to subscribers that it does not move. -/
theorem each_still (near : r.Near w.rig) {zs : List Subscriber} (attended : r.Attends zs)
    (still : ∀ z ∈ zs, r.drives e z = false) :
    Yields (Run.each (deliver app (perform app (depth + 1)) p e) zs) w fun _ w' =>
      r.Near w'.rig := by
  refine Yields.each (P := fun v => r.Near v.rig) ?_ near
  intro z member v near
  apply Yields.record
  exact hear_still silent (w := v.record (.told z p e)) near (attended z member) (still z member)

theorem emit_still (near : r.Near w.rig) (known : r.processors[p]? = some x)
    (attended : r.Attends x.subscribers) (still : ∀ z ∈ x.subscribers, r.drives e z = false) :
    Yields (Metering.emit app (perform app (depth + 1)) p e) w fun _ w' => r.Near w'.rig := by
  apply near.emit known
  intro v near
  exact near.each_still silent attended still

/-- A realized processor is started, and one that is started already stays so. -/
theorem start (near : r.Near w.rig) (known : r.processors[p]? = some x)
    (internal : x.isExternal = false) (phase : x.phase = .realized ∨ x.phase = .started)
    (attended : r.Attends x.subscribers) :
    Yields (start app (perform app (depth + 1)) p) w fun a w' =>
      a = .ok () ∧ (r.advance p .realized .started).Near w'.rig := by
  obtain ⟨z, there, here, -, external⟩ := near.meets known
  apply Yields.processor there
  simp only [external, internal, Bool.false_eq_true, if_false]
  obtain realized | started := phase
  · simp only [here, realized]
    rw [Rig.advance_of known realized]
    refine (near.moveTo known .started).bind ?_
    intro _ v moved
    refine Yields.bind (emit_still silent moved (Rig.modifyProcessor_known known _) attended
      fun z _ => Rig.drives_mere rfl) ?_
    intro _ v' told
    exact yields_pure.mpr ⟨rfl, told⟩
  · simp only [here, started]
    rw [Rig.advance_same fun y there => by
      obtain rfl := Option.some.inj (known.symm.trans there)
      simp [started]]
    exact yields_pure.mpr ⟨rfl, near⟩

/-- A session starts the processor of a stream when it is told that it has realized. -/
theorem hear_starts (near : r.Near w.rig) (known : r.processors[p]? = some x)
    (internal : x.isExternal = false) (phase : x.phase = .realized ∨ x.phase = .started)
    (attended : r.Attends x.subscribers) {z : Subscriber} (drives : r.drives .realized z = true) :
    Yields (hear app (perform app (depth + 2)) p .realized z) w fun _ w' =>
      (r.advance p .realized .started).Near w'.rig := by
  obtain ⟨s, k, y, rfl, session, used, starts⟩ := Rig.of_drives_realized drives
  have kept : (r.advance p .realized .started).sessions = r.sessions := rfl
  apply near.whileUsed session used kept
  intro v inUse
  have more : v.rig.sessions[s]? = some y.more :=
    inUse.session (Rig.modifySession_more session)
  apply Yields.session more
  rw [if_pos starts]
  have attended' : (r.modifySession s Session.more).Attends x.subscribers :=
    attended.modifySession s _
  have started : Yields (perform app (depth + 2) (.start p)) v fun a v' => a = .ok () ∧
      ((r.modifySession s Session.more).advance p .realized .started).Near v'.rig :=
    Rig.Near.start silent inUse known internal phase attended'
  refine started.bind ?_
  rintro _ v' ⟨rfl, done⟩
  exact yields_pure.mpr done

/-- A realized processor tells its subscribers so. It is started if one of them does that. -/
theorem each_realized (near : r.Near w.rig) (known : r.processors[p]? = some x)
    (internal : x.isExternal = false) (phase : x.phase = .realized ∨ x.phase = .started)
    (attended : r.Attends x.subscribers) {zs : List Subscriber} (within : zs ⊆ x.subscribers) :
    Yields (Run.each (deliver app (perform app (depth + 2)) p .realized) zs) w fun _ w' =>
      (if zs.any (r.drives .realized) then r.advance p .realized .started else r).Near w'.rig := by
  induction zs generalizing r w x with
  | nil => exact yields_pure.mpr near
  | cons z zs ih =>
    have rest : zs ⊆ x.subscribers := fun z' member => within (List.mem_cons_of_mem _ member)
    have here : z ∈ x.subscribers := within List.mem_cons_self
    have near' : r.Near (w.record (.told z p .realized)).rig := near
    by_cases drives : r.drives .realized z = true
    · have told : Yields (deliver app (perform app (depth + 2)) p .realized z) w fun _ w' =>
          (r.advance p .realized .started).Near w'.rig :=
        Yields.record (hear_starts silent near' known internal phase attended drives)
      refine told.bind ?_
      intro _ v near
      -- The processor is started by now, so the others find it so.
      have known' : (r.advance p .realized .started).processors[p]? =
          some { x with phase := .started } := by
        rw [Rig.advance, Rig.modifyProcessor_known known]
        obtain realized | started := phase
        · rw [if_pos realized]
        · rw [if_neg (by simp [started]), ← started]
      have again : (r.advance p .realized .started).advance p .realized .started =
          r.advance p .realized .started := Rig.advance_same fun y there => by
        obtain rfl := Option.some.inj (known'.symm.trans there)
        nofun
      have later := ih near known' internal (.inr rfl) attended rest
      rw [again, ite_self] at later
      simpa [drives] using later
    · have told : Yields (deliver app (perform app (depth + 2)) p .realized z) w fun _ w' =>
          r.Near w'.rig :=
        Yields.record (hear_still silent near' (attended z here) (by simpa using drives))
      refine told.bind ?_
      intro _ v near
      simpa [drives] using ih near known internal phase attended rest

end Rig.Near

end Metering
