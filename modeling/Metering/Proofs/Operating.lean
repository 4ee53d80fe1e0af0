import Metering.Proofs.Bringing
import Metering.Proofs.History
/-!
The operations of a session, each as the change that it makes to the core of the rig. Frames are
the only calls on the way to which the application is called itself.
-/

namespace Metering

variable {S α β : Type}

/-- The effect that a frame meets on a track of a processor. -/
def Processor.meets (x : Processor) (i : Nat) : Option EffectId :=
  if x.phase = .started then
    (x.tracks[i]?).bind fun t =>
      match t.enabled, t.chain with
      | true, [.effect e] => some e
      | _, _ => none
  else none

def Processor.joined (x : Processor) (z : Subscriber) : Processor :=
  { x with subscribers := x.subscribers ++ [z] }

/-- The rig after a stream is given up: its processor is closed and its effect is silent. -/
def Rig.dropStream (r : Rig) (x : Stream) : Rig :=
  ((r.setPhase x.processor .closed).modifyEffect x.effect (·.setListener none)).modifyEffect
    x.effect (·.reset)

/-- The rig after the processor in use for capture is closed, if there is one. -/
def Rig.dropCapture (r : Rig) : Option ProcessorId → Rig
  | some p => r.setPhase p .closed
  | none => r

/-- It makes no difference in which order streams are given up. -/
theorem Rig.dropStream_comm (r : Rig) (x y : Stream) :
    (r.dropStream x).dropStream y = (r.dropStream y).dropStream x := by
  simp only [dropStream, modifyEffect, setPhase, modifyProcessor, List.modify_modify_eq]
  rw [modify_comm r.processors, modify_comm r.effects]

theorem Rig.dropStreams_perm {r : Rig} {xs ys : List (Ssrc × Stream)} (order : xs.Perm ys) :
    xs.foldl (fun r k => r.dropStream k.2) r = ys.foldl (fun r k => r.dropStream k.2) r :=
  order.foldl_eq' (fun x _ y _ r => r.dropStream_comm x.2 y.2) r

section Core

variable {r : Rig} {x : Processor} {p q : ProcessorId} {s : SessionId}

theorem Rig.modifyProcessor_other {f : Processor → Processor} (other : p ≠ q) :
    (r.modifyProcessor p f).processors[q]? = r.processors[q]? := by
  simp [Rig.modifyProcessor, other]

theorem Rig.modifySession_known {f : Session → Session} {y : Session}
    (known : r.sessions[s]? = some y) : (r.modifySession s f).sessions[s]? = some (f y) := by
  simp [Rig.modifySession, known]

/-- A stream is found under the name under which it was added. -/
theorem Session.addStream_last {y : Session} {ssrc : Ssrc} (absent : ¬y.hasStream ssrc = true)
    (stream : Stream) : (y.addStream ssrc stream).stream? ssrc = some stream := by
  have before : y.streams.lookup ssrc = none := by
    rw [List.lookup_eq_none_iff]
    intro k member
    have other : k.1 ≠ ssrc := by
      intro same
      exact absent (List.any_eq_true.mpr ⟨k, member, by simp [same]⟩)
    simpa using other.symm
  simp [Session.stream?, Session.addStream, List.lookup_append, before]

theorem Rig.dropCapture_sessions (capture : Option ProcessorId) :
    (r.dropCapture capture).sessions = r.sessions := by
  cases capture with
  | none => rfl
  | some q => rfl

theorem Rig.dropCapture_effects (capture : Option ProcessorId) :
    (r.dropCapture capture).effects = r.effects := by
  cases capture with
  | none => rfl
  | some q => rfl

theorem Rig.dropCapture_other {capture : Option ProcessorId} (other : capture ≠ some p) :
    (r.dropCapture capture).processors[p]? = r.processors[p]? := by
  cases capture with
  | none => rfl
  | some q => exact Rig.modifyProcessor_other fun same => other (congrArg some same)

theorem Processor.core_meets (i : Nat) : x.core.meets i = x.meets i := by
  have phase : x.core.phase = x.phase := rfl
  rw [meets, meets, phase, core_track]
  cases x.tracks[i]? with
  | none => rfl
  | some t => rfl

theorem Processor.Own.joined (h : x.Own s) {z : Subscriber} (own : z.IsOf s) :
    (x.joined z).Own s where
  internal := h.internal
  heard z' member := by
    obtain member | member := List.mem_append.mp member
    · exact h.heard z' member
    · exact List.mem_singleton.mp member ▸ own
  simple := h.simple

/-- The format agreed on makes no difference to what an effect makes of a frame. -/
theorem LevelEffect.core_observe (z : LevelEffect) (b : Buffer) :
    (z.core.observe b).1 = (z.observe b).1 ∧ (z.core.observe b).2 = (z.observe b).2.core := by
  cases listens : z.listener with
  | none =>
    unfold LevelEffect.observe LevelEffect.observeBy
    simp [LevelEffect.core, listens]
  | some l =>
    rw [LevelEffect.observe_eq listens, LevelEffect.observe_eq (e := z.core) listens]
    exact ⟨rfl, rfl⟩

end Core

namespace World.At

variable {s : SessionId} {n : Nat} {r : Rig} {ps : List Page} {w : World S} {y : Session}
variable {p : ProcessorId} {x : Processor} {app : Application S}

section Effects

theorem setListener (h : w.At s n r ps) (e : EffectId) (l : Option ListenerId) :
    Ensures (setListener e l) w fun _ w' => w'.At s n (r.modifyEffect e (·.setListener l)) ps :=
  ensures_modifyEffect.mpr (h.modifyEffect fun _ _ => rfl)

theorem resetEffect (h : w.At s n r ps) (e : EffectId) :
    Ensures (resetEffect e) w fun _ w' => w'.At s n (r.modifyEffect e (·.reset)) ps :=
  ensures_modifyEffect.mpr (h.modifyEffect fun _ _ => rfl)

/-- The members of a list are dealt with one after the other. -/
theorem each {f : β → Run S Unit} {g : Rig → β → Rig}
    (does : ∀ b r (w : World S), w.At s n r ps → Ensures (f b) w fun _ w' => w'.At s n (g r b) ps)
    (bs : List β) (h : w.At s n r ps) :
    Ensures (Run.each f bs) w fun _ w' => w'.At s n (bs.foldl g r) ps := by
  induction bs generalizing w r with
  | nil => exact ensures_pure.mpr h
  | cons b bs ih => exact (does b r w h).bind fun _ _ done => ih done

theorem setLocalListener (h : w.At s n r ps) (session : r.sessions[s]? = some y)
    (l : Option ListenerId) : Ensures (setLocalListener s l) w fun _ w' =>
      w'.At s n (r.modifyEffect y.localEffect (·.setListener l)) ps := by
  refine h.readSession session fun _ => ?_
  exact h.setListener y.localEffect l

theorem setStreamListener (h : w.At s n r ps) (session : r.sessions[s]? = some y)
    (l : Option ListenerId) : Ensures (setStreamListener s l) w fun _ w' =>
      w'.At s n (y.streams.foldl (fun r k => r.modifyEffect k.2.effect (·.setListener l))
        (r.modifySession s fun y => { y with streamListener := l })) ps := by
  have stored := h.modifySession (f := fun y => { y with streamListener := l })
    (g := fun y => { y with streamListener := l }) (fun _ _ => rfl) n fun _ users => users
  refine ensures_bind.mpr (ensures_modifySession.mpr ?_)
  refine stored.readSession (Rig.modifySession_known session) fun _ => ?_
  exact stored.each (fun _ _ _ at_v => at_v.setListener _ l) y.streams

end Effects

section Streams

variable {depth : Nat}

/-- A processor that is known gets one more subscriber. -/
theorem subscribe (h : w.At s n r ps) {z : Subscriber} (own : z.IsOf s) :
    Ensures (subscribe p z) w fun _ w' => (∃ x, r.processors[p]? = some x) ∧
      w'.At s n (r.modifyProcessor p (·.joined z)) ps := by
  apply Ensures.processor
  intro x known
  have joined := h.modify (p := p) (f := (·.joined z)) (g := (·.joined z)) (fun _ _ => rfl)
    fun _ _ before => before.joined own
  exact ensures_bind.mpr (ensures_modifyProcessor.mpr (ensures_record.mpr
    ⟨⟨_, h.processor known⟩, joined.record _⟩))

/-- The session itself changes, and none of its users. -/
theorem alter (h : w.At s n r ps) (f : Session → Session)
    (same : ∀ y, (f y).core = f y.core ∧ (f y).users = y.users) :
    Ensures (Run.modifySession s f) w fun _ w' => w'.At s n (r.modifySession s f) ps :=
  ensures_modifySession.mpr (h.modifySession (fun y _ => (same y).1) n
    fun y users => (same y).2.trans users)

theorem closeStream (h : w.At s n r ps) (used : 0 < n) (x : Stream) :
    Ensures (closeStream app (perform app depth) x) w fun _ w' =>
      w'.At s n (r.dropStream x) ps := by
  refine (h.close used x.processor).bind fun _ v closed => ?_
  refine (closed.setListener x.effect none).bind fun _ v silent => ?_
  exact silent.resetEffect x.effect

theorem removeStream (h : w.At s n r ps) (used : 0 < n) (session : r.sessions[s]? = some y)
    (ssrc : Ssrc) : Ensures (removeStream app (perform app depth) s ssrc) w fun _ w' =>
      w'.At s n (match y.stream? ssrc with
        | some stream => (r.modifySession s (·.removeStream ssrc)).dropStream stream
        | none => r) ps := by
  refine h.readSession session fun users => ?_
  have same : ({ y with users } : Session).stream? ssrc = y.stream? ssrc := rfl
  rw [same]
  cases y.stream? ssrc with
  | none => exact ensures_pure.mpr h
  | some stream =>
    refine (h.alter (·.removeStream ssrc) fun _ => ⟨rfl, rfl⟩).bind fun _ v removed => ?_
    refine (removed.closeStream used stream).bind fun _ v closed => ?_
    refine (closed.sessionNotice s _).bind fun _ v noted => ?_
    exact ensures_pure.mpr noted

/-- The processor in use for capture. -/
theorem captured (h : w.At s n r ps) (session : r.sessions[s]? = some y) :
    Ensures (Metering.capture s) w fun answer w' => w' = w ∧
      (∀ p, y.capture = some p → answer = .ok p) ∧
      (y.capture = none → ∃ f, answer = .error f) := by
  refine h.readSession session fun _ => ?_
  dsimp only
  cases y.capture with
  | none => exact ensures_pure.mpr ⟨rfl, fun _ => nofun, fun _ => ⟨_, rfl⟩⟩
  | some p =>
    refine ensures_pure.mpr ⟨rfl, fun q here => ?_, nofun⟩
    rw [Option.some.inj here]

theorem startSession (h : w.At s n r ps) (used : 0 < n) (session : r.sessions[s]? = some y) :
    Ensures (startSession app (perform app depth) s) w fun _ w' =>
      w'.At s n (match y.capture with
        | some p => r.advance p .realized .started
        | none => r) ps := by
  refine (h.captured session).bind ?_
  rintro answer _ ⟨rfl, here, absent⟩
  cases capture : y.capture with
  | none =>
    obtain ⟨f, rfl⟩ := absent capture
    exact ensures_pure.mpr h
  | some p =>
    obtain rfl := here p capture
    refine (h.start used p).bind fun answer v started => ?_
    cases answer with
    | ok => exact ensures_pure.mpr started
    | error f => exact (started.sessionNotice s _).bind fun _ v noted => ensures_pure.mpr noted

theorem stopSession (h : w.At s n r ps) (used : 0 < n) (session : r.sessions[s]? = some y) :
    Ensures (stopSession app (perform app depth) s) w fun _ w' =>
      w'.At s n (match y.capture with
        | some p => r.advance p .started .realized
        | none => r) ps := by
  refine (h.captured session).bind ?_
  rintro answer _ ⟨rfl, here, absent⟩
  cases capture : y.capture with
  | none =>
    obtain ⟨f, rfl⟩ := absent capture
    exact ensures_pure.mpr h
  | some p =>
    obtain rfl := here p capture
    exact h.stop used p

theorem closeSession (h : w.At s n r ps) (used : 0 < n) (session : r.sessions[s]? = some y) :
    Ensures (closeSession app (perform app depth) s) w fun _ w' =>
      w'.At s n ((y.streams.foldl (fun r k => r.dropStream k.2)
        (((r.modifySession s fun y => { y with capture := none }).dropCapture
          y.capture).modifySession s fun y => { y with streams := [] })).modifyEffect
            y.localEffect (·.reset)) ps := by
  refine h.readSession session fun users => ?_
  refine (h.alter (fun y => { y with capture := none }) fun _ => ⟨rfl, rfl⟩).bind
    fun _ v emptied => ?_
  -- The streams and the effect are given up in the same way, with or without a capture.
  have ends {v : World S} {r : Rig} (at_v : v.At s n r ps)
      (here : r.sessions[s]? = some { y with capture := none }) : Ensures (do
        let streams := (← Run.session s).streams
        Run.modifySession s fun x => { x with streams := [] }
        Run.each (fun e => Metering.closeStream app (perform app depth) e.2)
          (app.arranged (← get).app streams)
        Metering.resetEffect y.localEffect
        Metering.sessionNotice s (.closed y.device)) v fun _ w' =>
      w'.At s n ((y.streams.foldl (fun r k => r.dropStream k.2)
        (r.modifySession s fun y => { y with streams := [] })).modifyEffect y.localEffect
          (·.reset)) ps := by
    refine at_v.readSession here fun _ => ?_
    refine (at_v.alter (fun y => { y with streams := [] }) fun _ => ⟨rfl, rfl⟩).bind
      fun _ v cleared => ?_
    refine ensures_bind.mpr (ensures_get.mpr ?_)
    refine (cleared.each (fun k _ _ at_v => at_v.closeStream used k.2)
      (app.arranged v.app y.streams)).bind fun _ v' closed => ?_
    rw [Rig.dropStreams_perm (app.arranged_perm v.app y.streams)] at closed
    refine (closed.resetEffect y.localEffect).bind fun _ v reset => ?_
    exact reset.sessionNotice s _
  have here := Rig.modifySession_known (f := fun y => { y with capture := none }) session
  dsimp only
  cases y.capture with
  | none => exact ends emptied here
  | some p => exact (emptied.close used p).bind fun _ v closed => ends closed here

variable (app depth) in
/-- A processor that nobody hears of and that was configured at most is taken in and brought up. -/
theorem takeIn (h : w.At s n r ps) (used : 0 < n) (session : r.sessions[s]? = some y)
    (fresh : ∀ x, r.processors[p]? = some x →
      x.subscribers = [] ∧ (x.phase = .unrealized ∨ x.phase = .configured))
    {z : Subscriber} (own : z.IsOf s) {e : EffectId} (effect : y.effectFor z = some e)
    (body : Run S Unit) (does : ∀ (v : World S) (r : Rig) (x : Processor), v.At s n r ps →
      r.sessions[s]? = some y → r.processors[p]? = some x → x.phase = .configured →
      x.subscribers = [z] → Ensures body v fun _ w' => w'.At s n
        (r.modifyProcessor p (·.brought e (z.goal y.config.startStreams))) ps) :
    Ensures (do
      Metering.subscribe p z
      Metering.beginConfiguration app (perform app depth) p body) w fun answer w' =>
        answer = .ok () ∧ (∃ x, r.processors[p]? = some x) ∧ w'.At s n (r.modifyProcessor p
          fun x => (x.joined z).brought e (z.goal y.config.startStreams)) ps := by
  refine (h.subscribe own).bind ?_
  rintro _ v ⟨⟨x, known⟩, joined⟩
  obtain ⟨nobody, early⟩ := fresh x known
  have one : (x.joined z).subscribers = [z] := by simp [Processor.joined, nobody]
  have there := Rig.modifyProcessor_known known (·.joined z)
  have brings := joined.beginConfiguration app depth used session there early
    one effect fun configured => does v _ _ joined session there configured one
  refine brings.mono ?_
  rintro _ w' ⟨answered, brought⟩
  rw [Rig.modifyProcessor_comp] at brought
  exact ⟨answered, ⟨x, known⟩, brought⟩

theorem connectCapture (h : w.At s n r ps) (used : 0 < n) (session : r.sessions[s]? = some y)
    (fresh : ∀ x, r.processors[p]? = some x →
      x.subscribers = [] ∧ (x.phase = .unrealized ∨ x.phase = .configured))
    (other : y.capture ≠ some p) :
    Ensures (connectCapture app (perform app depth) s p) w fun _ w' =>
      (∃ x, r.processors[p]? = some x) ∧ w'.At s n (((r.modifySession s fun y =>
        { y with capture := some p }).dropCapture y.capture).modifyProcessor p fun x =>
          (x.joined (.capture s)).brought y.localEffect .realized) ps := by
  refine h.readSession session fun _ => ?_
  refine (h.alter (fun y => { y with capture := some p }) fun _ => ⟨rfl, rfl⟩).bind
    fun _ v taken => ?_
  have here := Rig.modifySession_known (f := fun y => { y with capture := some p }) session
  -- The new processor is brought in the same way whether or not another had to go first.
  have brings {v : World S} {r' : Rig} (at_v : v.At s n r' ps)
      (session' : r'.sessions[s]? = some { y with capture := some p })
      (same : r'.processors[p]? = r.processors[p]?)
      {rest : Except Fault Unit → Run S (Except Fault Unit)}
      (returns : rest (.ok ()) = pure (.ok ())) : Ensures (do
        Metering.subscribe p (.capture s)
        let r ← Metering.beginConfiguration app (perform app depth) p
          (captureUpdate app (perform app depth) s p .configured)
        rest r) v fun _ w' => (∃ x, r.processors[p]? = some x) ∧
          w'.At s n (r'.modifyProcessor p fun x =>
            (x.joined (.capture s)).brought y.localEffect .realized) ps := by
    have takes := at_v.takeIn app depth (z := .capture s) used session' (same ▸ fresh) rfl rfl
      (captureUpdate app (perform app depth) s p .configured)
      fun v r x at_v session known configured one =>
        at_v.captureConfigured app depth used session known configured one
    have takes := ensures_bind.mp takes
    refine takes.bind fun _ v began => ?_
    refine began.bind ?_
    rintro _ v ⟨rfl, known, brought⟩
    rw [returns]
    exact ensures_pure.mpr ⟨same ▸ known, brought⟩
  dsimp only
  cases old : y.capture with
  | none => exact brings taken here rfl rfl
  | some q =>
    have apart : q ≠ p := fun same => other (old.trans (congrArg some same))
    refine (taken.sessionNotice s _).bind fun _ v noted => ?_
    refine (noted.close used q).bind fun _ v closed => ?_
    exact brings closed here (Rig.modifyProcessor_other apart) rfl

/-- The rig with one more effect. -/
theorem newEffect (h : w.At s n r ps) (z : LevelEffect) : Ensures (Run.newEffect z) w fun e w' =>
    e = r.effects.length ∧ w'.At s n { r with effects := r.effects ++ [z.core] } ps := by
  simp only [Run.newEffect, ensures_bind, ensures_get, ensures_modifyRig, ensures_pure]
  refine ⟨?_, ?_, h.users, h.story, h.own⟩
  · rw [← h.core]
    simp [Rig.core]
  · rw [← h.core]
    simp [Rig.core]

theorem addStream (h : w.At s n r ps) (used : 0 < n) (session : r.sessions[s]? = some y)
    (fresh : ∀ x, r.processors[p]? = some x →
      x.subscribers = [] ∧ (x.phase = .unrealized ∨ x.phase = .configured))
    (ssrc : Ssrc) :
    Ensures (addStream app (perform app depth) s ssrc p) w fun _ w' =>
      if y.hasStream ssrc then w'.At s n r ps
      else (∃ x, r.processors[p]? = some x) ∧ w'.At s n ((({ r with effects := r.effects ++
        [(LevelEffect.new y.config.effect).setListener y.streamListener] } : Rig).modifySession s
          (·.addStream ssrc ⟨p, r.effects.length⟩)).modifyProcessor p fun x =>
            (x.joined (.stream s ssrc)).brought r.effects.length
              ((Subscriber.stream s ssrc).goal y.config.startStreams)) ps := by
  refine h.readSession session fun users => ?_
  have same : ({ y with users } : Session).hasStream ssrc = y.hasStream ssrc := rfl
  rw [same]
  by_cases present : y.hasStream ssrc = true
  · simpa [present] using h
  · rw [if_neg present]
    refine (h.newEffect _).bind ?_
    rintro e v ⟨rfl, made⟩
    refine (made.alter (·.addStream ssrc ⟨p, r.effects.length⟩) fun _ => ⟨rfl, rfl⟩).bind
      fun _ v added => ?_
    have here := Rig.modifySession_known (r := { r with effects := r.effects ++
      [(LevelEffect.new y.config.effect).setListener y.streamListener] })
      (f := (·.addStream ssrc ⟨p, r.effects.length⟩)) session
    have last := Session.addStream_last present ⟨p, r.effects.length⟩
    have takes := added.takeIn app depth (z := .stream s ssrc) used here fresh rfl
      (congrArg (Option.map _) last) (streamUpdate app (perform app depth) s ssrc p .configured)
      fun v r x at_v session known configured one =>
        at_v.streamConfigured app depth used session known configured one last
    have takes := ensures_bind.mp takes
    refine takes.bind fun _ v began => ?_
    refine began.bind ?_
    rintro _ v ⟨rfl, known, brought⟩
    refine ensures_pure.mpr ?_
    rw [if_neg present]
    exact ⟨known, brought⟩

end Streams

section Alone

variable {again : {β : Type} → Call β → Run S β}

/-- Nobody hears of a processor without subscribers. -/
theorem emit_alone (h : w.At s n r ps) {e : Event}
    (nobody : ∀ x, r.processors[p]? = some x → x.subscribers = []) :
    Ensures (Metering.emit app again p e) w fun _ w' => w'.At s n r ps := by
  apply Ensures.record
  apply Ensures.processor
  intro x known
  have alone : x.subscribers = [] := nobody x.core (h.processor known)
  rw [alone]
  exact ensures_pure.mpr (h.record _)

theorem configureAlone (h : w.At s n r ps)
    (nobody : ∀ x, r.processors[p]? = some x → x.phase = .unrealized → x.subscribers = []) :
    Ensures (Metering.configure app again p) w fun _ w' =>
      w'.At s n (r.advance p .unrealized .configured) ps := by
  by_cases here : ∃ x, r.processors[p]? = some x ∧ x.phase = .unrealized
  · obtain ⟨x, known, unrealized⟩ := here
    have configures : Ensures (Metering.configure app again p) w fun answer w' =>
        answer = .ok () ∧ w'.At s n (r.setPhase p .configured) ps :=
      h.configure app known unrealized fun v moved => moved.emit_alone fun y there => by
        rw [Rig.setPhase, Rig.modifyProcessor_known known] at there
        cases there
        exact nobody x known unrealized
    rw [Rig.advance_of known unrealized]
    exact configures.mono fun _ _ => And.right
  · have other (x : Processor) (known : r.processors[p]? = some x) : x.phase ≠ .unrealized :=
      fun phase => here ⟨x, known, phase⟩
    rw [Rig.advance_same other]
    apply Ensures.processor
    intro x known
    rw [if_neg (by simp [h.internal known])]
    split
    case h_1 unrealized => exact absurd unrealized (other x.core (h.processor known))
    case h_2 => exact ensures_pure.mpr h
    case h_3 => exact ensures_pure.mpr h

theorem realizeAlone (h : w.At s n r ps)
    (nobody : ∀ x, r.processors[p]? = some x → x.phase = .configured → x.subscribers = []) :
    Ensures (Metering.realize app again p) w fun _ w' => w'.At s n (r.modifyProcessor p fun x =>
      if x.phase = .configured then { x.lock with phase := .realized } else x) ps := by
  by_cases here : ∃ x, r.processors[p]? = some x ∧ x.phase = .configured
  · obtain ⟨x, known, configured⟩ := here
    have realizes : Ensures (Metering.realize app again p) w fun answer w' => answer = .ok () ∧
        w'.At s n (r.modifyProcessor p fun x => { x.lock with phase := .realized }) ps :=
      h.realize app known configured fun v moved => moved.emit_alone fun y there => by
        rw [Rig.modifyProcessor_known known] at there
        cases there
        exact nobody x known configured
    have same : r.modifyProcessor p (fun x =>
        if x.phase = .configured then { x.lock with phase := .realized } else x) =
        r.modifyProcessor p fun x => { x.lock with phase := .realized } :=
      Rig.modifyProcessor_congr_of known (if_pos configured)
    rw [same]
    exact realizes.mono fun _ _ => And.right
  · have other (x : Processor) (known : r.processors[p]? = some x) : x.phase ≠ .configured :=
      fun phase => here ⟨x, known, phase⟩
    have same : r.modifyProcessor p (fun x =>
        if x.phase = .configured then { x.lock with phase := .realized } else x) =
        r.modifyProcessor p id :=
      Rig.modifyProcessor_congr fun y there => if_neg (other y there)
    rw [same, Rig.modifyProcessor_id]
    apply Ensures.processor
    intro x known
    rw [if_neg (by simp [h.internal known])]
    split
    case h_1 configured => exact absurd configured (other x.core (h.processor known))
    case h_2 => exact ensures_pure.mpr h
    case h_3 => exact ensures_pure.mpr h
    case h_4 => exact ensures_pure.mpr h

end Alone

section Frames

variable {again : {β : Type} → Call β → Run S β} {Q : World S → Prop} {i : Nat} {b : Buffer}

/-- What becomes of a frame that meets an effect. -/
theorem observe (h : w.At s n r ps) {e : EffectId} {z : LevelEffect} {slot : Buffer}
    (known : r.effects[e]? = some z)
    (silent : (z.observe b).1 = none →
      ∀ v : World S, v.At s n (r.modifyEffect e fun _ => (z.observe b).2) ps → Q v)
    (tells : ∀ l m, (z.observe b).1 = some (l, m) → ∀ v : World S,
      v.At s n (r.modifyEffect e fun _ => (z.observe b).2) (.heard l m :: ps) →
        Ensures ((app.level l m).run again) v fun _ => Q) :
    Ensures (Chain.observe app again e b slot) w fun _ => Q := by
  refine ensures_bind.mpr (ensures_effect.mpr fun z' known' => ?_)
  obtain rfl := Option.some.inj (known.symm.trans (h.effect known'))
  obtain ⟨told, after⟩ := z'.core_observe b
  have seen := h.modifyEffect (e := e) (f := fun _ => (z'.observe b).2)
    (g := fun _ => (z'.core.observe b).2) fun _ _ => after.symm
  dsimp only
  refine ensures_bind.mpr (ensures_modifyEffect.mpr ?_)
  rw [told] at silent tells
  cases heard : (z'.observe b).1 with
  | none =>
    have done : Q _ := silent heard _ seen
    exact ensures_bind.mpr (ensures_pure.mpr (ensures_pure.mpr done))
  | some t =>
    obtain ⟨l, m⟩ := t
    refine Ensures.record (ensures_bind.mpr (ensures_page.mpr ?_))
    refine (tells l m heard _ ?_).bind fun _ v done => ensures_pure.mpr done
    exact ⟨seen.core, seen.users, congrArg _ seen.story, seen.own⟩

/-- What goes through a chain with nothing but a level effect comes out. -/
theorem sendEffect {e : EffectId}
    (meets : Ensures (Chain.observe app again e b (.empty b.format)) w fun _ => Q) :
    Ensures (Chain.send app again [.effect e] b) w fun out v => Q v ∧ ∃ b, out = .ok b := by
  refine ensures_bind.mpr (ensures_bind.mpr (meets.mono ?_))
  intro out v done
  refine ensures_pure.mpr ?_
  dsimp only
  split
  · exact ensures_pure.mpr ⟨done, out, rfl⟩
  · exact ensures_pure.mpr ⟨done, out, rfl⟩

/-- A frame that is sent to a processor meets one effect or none. -/
theorem process (h : w.At s n r ps)
    (counted : ∀ v, Q v →
      Q (v.modify p fun x => { x with framesProcessed := x.framesProcessed + 1 }))
    (passes : ∀ x, r.processors[p]? = some x → x.meets i = none →
      ∀ v : World S, v.At s n r ps → Q v)
    (meets : ∀ x e, r.processors[p]? = some x → x.meets i = some e →
      Ensures (Chain.observe app again e b (.empty b.format)) w fun _ => Q) :
    Ensures (process app again p i b) w fun _ => Q := by
  apply Ensures.processor
  intro x known
  have unmet (none : x.meets i = none) : Q w :=
    passes _ (h.processor known) ((Processor.core_meets i).trans none) w h
  -- On the way to the chain, a frame is turned away wherever there is no effect for it to meet.
  split
  case isTrue other => exact ensures_pure.mpr (unmet (if_neg (by simpa using other)))
  case isFalse started =>
    have meets_eq : x.meets i = (x.tracks[i]?).bind fun t =>
        match t.enabled, t.chain with
        | true, [.effect e] => some e
        | _, _ => none := if_pos (by simpa using started)
    cases track : x.tracks[i]? with
    | none => exact ensures_pure.mpr (unmet (by simp [meets_eq, track]))
    | some t =>
      dsimp only
      cases enabled : t.enabled with
      | false => exact ensures_pure.mpr (unmet (by simp [meets_eq, track, enabled]))
      | true =>
        have counts {v : World S} (done : Q v) (out : Buffer) : Ensures (do
            Run.modifyProcessor p fun x => { x with framesProcessed := x.framesProcessed + 1 }
            return .ok out) v fun (_ : Except Fault Buffer) => Q :=
          ensures_bind.mpr (ensures_modifyProcessor.mpr (ensures_pure.mpr (counted v done)))
        obtain bare | ⟨e, only, -⟩ := h.track_simple known track
        · rw [bare]
          exact counts (unmet (by simp [meets_eq, track, enabled, bare])) b
        · have one : x.meets i = some e := by simp [meets_eq, track, enabled, only]
          rw [only]
          refine (sendEffect (meets _ e (h.processor known)
            ((Processor.core_meets i).trans one))).bind ?_
          rintro _ v ⟨done, out, rfl⟩
          exact counts done out

end Frames

end World.At

end Metering
