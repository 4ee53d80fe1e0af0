import Metering.Proofs.Releasing
import Metering.Proofs.Routes
/-!
What sessions hold. A session measures with effects of its own: no two of its effects are the same,
each was made for it with its configuration, and its streams have different names. The processors
that it holds are there, and so are the sessions that have subscribed to a processor. Whatever an
application does, this is so of every session.
-/

namespace Metering

variable {S α : Type}

namespace Session

/-- The effects of a session: the one for capture and those of the streams. -/
def effects (x : Session) : List EffectId := x.localEffect :: x.streams.map (·.2.effect)

/-- The processors of a session: the one in use for capture and those of the streams. -/
def processors (x : Session) : List ProcessorId :=
  x.capture.toList ++ x.streams.map (·.2.processor)

/-- The session holds effects of its own, and its streams have different names. -/
structure Proper (es : List LevelEffect) (x : Session) : Prop where
  distinct : x.effects.Nodup
  made : ∀ e ∈ x.effects, ∃ z, es[e]? = some z ∧ z.calculator.config = x.config.effect
  named : (x.streams.map (·.1)).Nodup

end Session

def Subscriber.session? : Subscriber → Option SessionId
  | .watcher _ => none
  | .capture s | .stream s _ => some s

namespace Rig

def Proper (r : Rig) : Prop :=
  ∀ (s : SessionId) (x : Session), r.sessions[s]? = some x → x.Proper r.effects

/-- All sessions that have subscribed to a processor are there. -/
def Attended (r : Rig) : Prop :=
  ∀ (q : ProcessorId) (y : Processor), r.processors[q]? = some y → ∀ z ∈ y.subscribers,
    ∀ t ∈ z.session?, t < r.sessions.length

/-- All that sessions and processors have to do with is there, and no chain is held. -/
structure Whole (r : Rig) : Prop where
  proper : r.Proper
  attended : r.Attended
  held : ∀ (s : SessionId) (x : Session), r.sessions[s]? = some x → ∀ q ∈ x.processors,
    q < r.processors.length
  free : ∀ (q : ProcessorId) (y : Processor), r.processors[q]? = some y → y.held = []

end Rig

/-- Objects remain, sessions remain proper, and they come to hold only processors that are there,
or one of those that have still to be looked up. -/
structure Supplies (due : ProcessorId → Prop) (w w' : World S) : Prop where
  effects : Outlast w.rig.effects w'.rig.effects
  sessions : w.rig.sessions.length ≤ w'.rig.sessions.length
  processors : ∀ (q : ProcessorId) (y : Processor), w.rig.processors[q]? = some y →
    ∃ y', w'.rig.processors[q]? = some y' ∧ y'.isExternal = y.isExternal
  proper : w.rig.Proper → w'.rig.Proper
  attended : w.rig.Attended → w'.rig.Attended
  held : ∀ (s : SessionId) (x' : Session), w'.rig.sessions[s]? = some x' → ∀ q ∈ x'.processors,
    q < w'.rig.processors.length ∨ due q ∨ ∃ x, w.rig.sessions[s]? = some x ∧ q ∈ x.processors

/-- Nothing has still to be looked up. -/
abbrev Furnishes (w w' : World S) : Prop := Supplies (fun _ => False) w w'

section Outlast

variable {es es' : List LevelEffect}

theorem Outlast.known (h : Outlast es es') {e : EffectId} {z : LevelEffect}
    (known : es[e]? = some z) :
    ∃ z', es'[e]? = some z' ∧ z'.calculator.config = z.calculator.config := by
  obtain ⟨rest, eq⟩ := h
  have later : (es'.map (·.calculator.config))[e]? = some z.calculator.config := by
    have within : e < (es.map (·.calculator.config)).length := by
      simpa using (List.getElem?_eq_some_iff.mp known).1
    rw [← eq, List.getElem?_append_left within]
    simp [known]
  rwa [List.getElem?_map, Option.map_eq_some_iff] at later

end Outlast

namespace Session

variable {es es' : List LevelEffect} {x : Session} {k : Ssrc} {p : ProcessorId}

theorem mem_effects {e : EffectId} :
    e ∈ x.effects ↔ e = x.localEffect ∨ ∃ st ∈ x.streams, st.2.effect = e := by
  simp [effects]

theorem Proper.outlast (h : x.Proper es) (last : Outlast es es') : x.Proper es' where
  distinct := h.distinct
  named := h.named
  made e member := by
    obtain ⟨z, known, config⟩ := h.made e member
    obtain ⟨z', known', same⟩ := last.known known
    exact ⟨z', known', same.trans config⟩

theorem Proper.lt (h : x.Proper es) {e : EffectId} (member : e ∈ x.effects) : e < es.length := by
  obtain ⟨z, known, -⟩ := h.made e member
  exact (List.getElem?_eq_some_iff.mp known).1

/-- A session that has given away some of its streams. -/
theorem Proper.sublist (h : x.Proper es) {streams : List (Ssrc × Stream)}
    (fewer : streams.Sublist x.streams) : ({ x with streams } : Session).Proper es where
  distinct := h.distinct.sublist ((fewer.map _).cons_cons _)
  named := h.named.sublist (fewer.map _)
  made e member := h.made e (((fewer.map _).cons_cons _).subset member)

/-- A stream is added with an effect that has just been made for it. -/
theorem Proper.addStream (h : x.Proper es) (absent : ¬x.hasStream k = true) {z : LevelEffect}
    (config : z.calculator.config = x.config.effect) :
    (x.addStream k ⟨p, es.length⟩).Proper (es ++ [z]) := by
  have effects : (x.addStream k ⟨p, es.length⟩).effects = x.effects ++ [es.length] := by
    simp [Session.effects, Session.addStream]
  refine ⟨?_, fun e member => ?_, ?_⟩
  · rw [effects, List.nodup_append]
    refine ⟨h.distinct, by simp, fun e member e' last => ?_⟩
    rw [List.mem_singleton.mp last]
    exact Nat.ne_of_lt (h.lt member)
  · rw [effects] at member
    obtain before | last := List.mem_append.mp member
    · exact (h.outlast (.append es z)).made e before
    · rw [List.mem_singleton.mp last]
      exact ⟨z, by simp, config⟩
  · have other : ∀ st ∈ x.streams, st.1 ≠ k := fun st member same =>
      absent (List.any_eq_true.mpr ⟨st, member, by simp [same]⟩)
    simp only [Session.addStream, List.map_append, List.nodup_append]
    refine ⟨h.named, by simp, ?_⟩
    grind

end Session

namespace Supplies

variable {u v w : World S} {due due' : ProcessorId → Prop}

theorem known_processor (h : Supplies due w v) {q : ProcessorId}
    (known : q < w.rig.processors.length) : q < v.rig.processors.length := by
  obtain ⟨y, here, -⟩ := h.processors q _ (List.getElem?_eq_getElem known)
  exact (List.getElem?_eq_some_iff.mp here).1

theorem trans (first : Supplies due u v) (second : Supplies due v w) : Supplies due u w where
  effects := first.effects.trans second.effects
  sessions := Nat.le_trans first.sessions second.sessions
  processors q y known := by
    obtain ⟨y', known', same⟩ := first.processors q y known
    obtain ⟨y'', known'', same'⟩ := second.processors q y' known'
    exact ⟨y'', known'', same'.trans same⟩
  proper h := second.proper (first.proper h)
  attended h := second.attended (first.attended h)
  held s x'' here q member := by
    obtain there | isDue | ⟨x', before, member'⟩ := second.held s x'' here q member
    · exact .inl there
    · exact .inr (.inl isDue)
    · exact (first.held s x' before q member').imp_left second.known_processor

theorem mono (h : Supplies due u v) (more : ∀ q, due q → due' q) : Supplies due' u v :=
  { h with held := fun s x' here q member =>
      (h.held s x' here q member).imp_right (Or.imp_left (more q)) }

/-- What has been looked up is there. -/
theorem looked (h : Supplies due u v) (there : ∀ q, due q → q < v.rig.processors.length) :
    Furnishes u v := by
  refine { h with held := fun s x' here q member => ?_ }
  obtain known | isDue | before := h.held s x' here q member
  · exact .inl known
  · exact .inl (there q isDue)
  · exact .inr (.inr before)

/-- A session changes. -/
theorem arrange {s : SessionId} {f : Session → Session}
    (keeps : ∀ x, w.rig.sessions[s]? = some x → x.Proper w.rig.effects →
      (f x).Proper w.rig.effects)
    (holds : ∀ x, ∀ q ∈ (f x).processors, due q ∨ q ∈ x.processors) :
    Supplies due w (w.arrange s f) where
  effects := List.prefix_rfl
  sessions := by simp [World.arrange]
  processors q y known := ⟨y, known, rfl⟩
  proper h t y known := by
    simp only [World.arrange, List.getElem?_modify] at known
    obtain ⟨x, before, rfl⟩ := Option.map_eq_some_iff.mp known
    split
    case isTrue here => exact keeps x (here ▸ before) (h t x before)
    case isFalse => exact h t x before
  attended h q y known z member t here := by
    simpa [World.arrange] using h q y known z member t here
  held t y known q member := by
    simp only [World.arrange, List.getElem?_modify] at known
    obtain ⟨x, before, rfl⟩ := Option.map_eq_some_iff.mp known
    split at member
    case isTrue => exact .inr ((holds x q member).imp_right fun member => ⟨x, before, member⟩)
    case isFalse => exact .inr (.inr ⟨x, before, member⟩)

end Supplies

namespace Furnishes

variable {u v w : World S} {app : Application S} {again : {β : Type} → Call β → Run S β}

/-- Nothing changes but the effects, which remain. -/
theorem of_outlast {w' : World S} (processors : w'.rig.processors = w.rig.processors)
    (sessions : w'.rig.sessions = w.rig.sessions) (last : Outlast w.rig.effects w'.rig.effects) :
    Furnishes w w' where
  effects := last
  sessions := Nat.le_of_eq (sessions ▸ rfl)
  processors q y known := ⟨y, processors ▸ known, rfl⟩
  proper h s x known := (h s x (sessions ▸ known)).outlast last
  attended h := by
    rwa [Rig.Attended, processors, sessions]
  held s x known q member := .inr (.inr ⟨x, sessions ▸ known, member⟩)

theorem of_same {w' : World S} (rig : w'.rig = w.rig) : Furnishes w w' :=
  of_outlast (rig ▸ rfl) (rig ▸ rfl) (by rw [rig]; exact List.prefix_rfl)

theorem flow : Flow (Furnishes (S := S)) where
  refl _ := of_same rfl
  trans := Supplies.trans

/-- A session that is known remains known. -/
theorem known {w' : World S} (h : Furnishes w w') {s : SessionId} {x : Session}
    (known : w.rig.sessions[s]? = some x) : ∃ x', w'.rig.sessions[s]? = some x' :=
  ⟨_, List.getElem?_eq_getElem
    (Nat.lt_of_lt_of_le (List.getElem?_eq_some_iff.mp known).1 h.sessions)⟩

theorem record (e : Entry) : Keeps (S := S) Furnishes (Run.record e) :=
  fun _ => ensures_record.mpr (of_same rfl)

/-- A processor changes, whose subscribers are there. -/
theorem alter {q : ProcessorId} {f : Processor → Processor}
    (external : ∀ y, (f y).isExternal = y.isExternal)
    (subscribers : ∀ y, ∀ z ∈ (f y).subscribers, z ∈ y.subscribers ∨
      ∀ t ∈ z.session?, t < w.rig.sessions.length) : Furnishes w (w.modify q f) where
  effects := List.prefix_rfl
  sessions := Nat.le_refl _
  processors r y known := by
    rw [World.modify_processors, List.getElem?_modify, known]
    refine ⟨_, rfl, ?_⟩
    dsimp only
    split
    · exact external y
    · rfl
  proper h := h
  attended h r y known z member t here := by
    rw [World.modify_processors, List.getElem?_modify] at known
    obtain ⟨y, before, rfl⟩ := Option.map_eq_some_iff.mp known
    split at member
    · exact (subscribers y z member).elim (h r y before z · t here) (· t here)
    · exact h r y before z member t here
  held s x known q member := .inr (.inr ⟨x, known, member⟩)

theorem modify (q : ProcessorId) {f : Processor → Processor}
    (external : ∀ y, (f y).isExternal = y.isExternal)
    (subscribers : ∀ y, (f y).subscribers = y.subscribers) :
    Keeps (S := S) Furnishes (Run.modifyProcessor q f) :=
  fun _ => ensures_modifyProcessor.mpr
    (alter external fun y _ member => .inl (subscribers y ▸ member))

theorem newProcessor {x : Processor} (nobody : x.subscribers = []) :
    Keeps (S := S) Furnishes (Run.newProcessor x) := by
  intro w
  simp only [Run.newProcessor, ensures_bind, ensures_get, ensures_modifyRig, ensures_pure]
  refine ⟨List.prefix_rfl, Nat.le_refl _, fun q y known => ⟨y, ?_, rfl⟩, id,
    fun h q y known z member t here => ?_, fun s x known q member => .inr (.inr ⟨x, known, member⟩)⟩
  · rw [List.getElem?_append_left (List.getElem?_eq_some_iff.mp known).1, known]
  · obtain before | last := List.mem_append.mp (List.mem_of_getElem? known)
    · obtain ⟨r, known⟩ := List.mem_iff_getElem?.mp before
      exact h r y known z member t here
    · rw [List.mem_singleton.mp last, nobody] at member
      cases member

theorem arrange {s : SessionId} {f : Session → Session}
    (keeps : ∀ x, w.rig.sessions[s]? = some x → x.Proper w.rig.effects →
      (f x).Proper w.rig.effects) (fewer : ∀ x, (f x).processors ⊆ x.processors) :
    Furnishes w (w.arrange s f) :=
  Supplies.arrange keeps fun x _ member => .inr (fewer x member)

theorem modifySession (s : SessionId) {f : Session → Session}
    (keeps : ∀ x es, x.Proper es → (f x).Proper es) (fewer : ∀ x, (f x).processors ⊆ x.processors) :
    Keeps (S := S) Furnishes (Run.modifySession s f) :=
  fun _ => ensures_modifySession.mpr (arrange (fun x _ => keeps x _) fewer)

theorem tame : Tame (Furnishes (S := S)) where
  toFlow := flow
  own _ _ := of_same rfl
  aside e _ := record e
  effects _ _ last := of_outlast rfl rfl last
  story _ _ := of_same rfl
  mark _ := ensures_mark.mpr (of_same rfl)
  users s _ := modifySession s (fun _ _ h => ⟨h.distinct, h.made, h.named⟩) fun _ _ => id
  newProcessor _ _ := newProcessor rfl
  newExternal _ _ _ := newProcessor rfl
  watch q x := flow.bind (flow.processor q) fun _ => flow.bind
    (fun _ => ensures_modifyProcessor.mpr (alter (fun _ => rfl) fun y z member =>
      (List.mem_append.mp member).imp_right fun last => by
        rw [List.mem_singleton.mp last]
        nofun)) fun _ => record _
  setChain := flow.setChain fun q _ => modify q (fun _ => rfl) fun _ => rfl
  setEnabled q _ _ := modify q (fun _ => rfl) fun _ => rfl
  counted q := modify q (fun _ => rfl) fun _ => rfl

theorem stable (app : Application S) : Stable app (fun _ => True) Furnishes where
  toTame := tame
  holding q _ := flow.holding fun _ => modify q (fun _ => rfl) fun _ => rfl
  opened _ := record _
  closed _ := record _
  setOpen q _ _ := modify q (fun _ => rfl) fun _ => rfl
  moveTo q _ _ := flow.bind (flow.processor q) fun _ =>
    flow.bind (modify q (fun _ => rfl) fun _ => rfl) fun _ => record _
  readied _ _ _ := record _
  lockTracks q _ := modify q (fun _ => rfl) fun _ => rfl
  emit again answers q _ e :=
    tame.emit (fun _ _ => record _) (fun _ _ _ => record _) again answers q e

theorem newSession (label : String) (device : Device) (config : SessionConfig) :
    Keeps (S := S) Furnishes (newSession label device config) := by
  intro w
  simp only [Metering.newSession, Run.newEffect, Run.newSession, ensures_bind, ensures_get,
    ensures_modifyRig, ensures_pure]
  refine ⟨.append .., by simp, fun q y known => ⟨y, known, rfl⟩, fun h s x known => ?_,
    fun h q y known z member t here => ?_, fun s x known q member => ?_⟩
  · rw [List.getElem?_append] at known
    split at known
    case isTrue => exact (h s x known).outlast (.append ..)
    case isFalse =>
      obtain rfl := List.mem_singleton.mp (List.mem_of_getElem? known)
      exact ⟨by simp [Session.effects], by simp [Session.effects, LevelEffect.new], by simp⟩
  · exact Nat.lt_of_lt_of_le (h q y known z member t here) (by simp)
  · rw [List.getElem?_append] at known
    split at known
    case isTrue => exact .inr (.inr ⟨x, known, member⟩)
    case isFalse =>
      obtain rfl := List.mem_singleton.mp (List.mem_of_getElem? known)
      cases member

theorem setStreamListener (s : SessionId) (l : Option ListenerId) :
    Keeps (S := S) Furnishes (setStreamListener s l) :=
  flow.bind (modifySession s (fun _ _ h => ⟨h.distinct, h.made, h.named⟩) fun _ _ => id) fun _ =>
    flow.bind (flow.session s) fun _ => flow.each (fun _ => tame.setListener _ l) _

section Operations

variable (answers : Answers Furnishes again)
include answers

theorem close (p : ProcessorId) : Keeps Furnishes (close app again p) :=
  (stable app).close answers trivial

/-- A processor that has been taken in is there. -/
theorem takeIn {s : SessionId} {p : ProcessorId} {z : Subscriber} (joins : z.session? = some s)
    (there : s < w.rig.sessions.length) {body : Run S Unit} (keeps : Keeps Furnishes body)
    (failed : Fault → SessionNotice) {undo : Session → Session}
    (undoes : ∀ x es, x.Proper es → (undo x).Proper es)
    (fewer : ∀ x, (undo x).processors ⊆ x.processors) :
    Ensures (takeIn app again s p z body failed undo) w fun _ w' =>
      Furnishes w w' ∧ p < w'.rig.processors.length := by
  have begins := tame.beginConfiguration ((stable app).configure answers (p := p) trivial) keeps
  refine ensures_bind.mpr (ensures_subscribe.mpr fun y known => ?_)
  have joined : Furnishes w (w.modify p fun y => { y with subscribers := y.subscribers ++ [z] }) :=
    alter (fun _ => rfl) fun _ z' member => (List.mem_append.mp member).imp_right fun last => by
      rw [List.mem_singleton.mp last, joins]
      rintro t ⟨⟩
      exact there
  replace joined : Furnishes w (w.subscribe p z) := joined.trans (of_same rfl)
  have follows (w' : World S) (rest : Furnishes (w.subscribe p z) w') :
      Furnishes w w' ∧ p < w'.rig.processors.length :=
    ⟨joined.trans rest,
      (joined.trans rest).known_processor (List.getElem?_eq_some_iff.mp known).1⟩
  refine Ensures.mono (flow.bind begins (fun r => ?_) _) fun _ w' => follows w'
  cases r with
  | ok => exact flow.pure _
  | error f =>
    exact flow.bind (tame.sessionNotice s _) fun _ =>
      flow.bind (modifySession s undoes fewer) fun _ => flow.pure _

theorem connectCapture (s : SessionId) (p : ProcessorId) :
    Keeps Furnishes (connectCapture app again s p) := by
  intro w
  refine ensures_bind.mpr (ensures_session.mpr fun x known => ?_)
  -- The session holds the processor before it has been looked up.
  have begun : Supplies (· = p) w (w.arrange s fun x => { x with capture := some p }) := by
    refine .arrange (fun _ _ h => ⟨h.distinct, h.made, h.named⟩) fun x q member => ?_
    simp only [Session.processors, Option.toList_some, List.singleton_append,
      List.mem_cons] at member
    exact member.imp_right fun member => List.mem_append_right _ member
  refine ensures_bind.mpr (ensures_modifySession.mpr ?_)
  have takes {v : World S}
      (before : Furnishes (w.arrange s fun x => { x with capture := some p }) v) :
      Ensures (takeCapture app again s p) v fun _ w' => Furnishes w w' := by
    have there : s < v.rig.sessions.length := Nat.lt_of_lt_of_le
      (List.getElem?_eq_some_iff.mp known).1 (Nat.le_trans begun.sessions before.sessions)
    have takes : Ensures (takeCapture app again s p) v fun _ w' =>
        Furnishes v w' ∧ p < w'.rig.processors.length :=
      takeIn answers rfl there (tame.captureUpdate answers s p _) _
        (fun _ _ h => ⟨h.distinct, h.made, h.named⟩) fun x => List.subset_append_right _ _
    refine takes.mono fun _ w' taken => ?_
    exact (begun.trans ((before.trans taken.1).mono fun _ => False.elim)).looked
      fun q same => same ▸ taken.2
  dsimp only
  split
  · refine (tame.sessionNotice s _ _).bind fun _ v told => ?_
    exact (flow.follow told (close answers _)).bind fun _ _ before => takes before
  · exact takes (flow.refl _)

omit answers in
theorem removes (s : SessionId) (k : Ssrc) :
    Keeps Furnishes (Run.modifySession s fun x => x.removeStream k : Run S Unit) :=
  modifySession s (fun _ _ h => h.sublist List.filter_sublist) fun _ =>
    ((List.Sublist.refl _).append (List.filter_sublist.map _)).subset

theorem addStream (s : SessionId) (k : Ssrc) (p : ProcessorId) :
    Keeps Furnishes (addStream app again s k p) := by
  intro w
  refine ensures_bind.mpr (ensures_session.mpr fun x known => ?_)
  split
  case isTrue => exact ensures_pure.mpr (flow.refl w)
  case isFalse absent =>
    -- The effect is made and given to the session in one step, since it is nobody's in between.
    have begun : Supplies (· = p) w
        ((w.fit ((LevelEffect.new x.config.effect).setListener x.streamListener)).arrange s
          fun x => x.addStream k ⟨p, w.rig.effects.length⟩) := by
      refine ⟨.append .., by simp [World.arrange, World.fit], fun q y known => ⟨y, known, rfl⟩,
        fun h t y there => ?_,
        fun h q y known z member t here => by
          simpa [World.arrange, World.fit] using h q y known z member t here,
        fun t y there q member => ?_⟩
      all_goals
        simp only [World.arrange, World.fit, List.getElem?_modify] at there
        obtain ⟨y, before, rfl⟩ := Option.map_eq_some_iff.mp there
      · split
        case isTrue here =>
          obtain rfl := Option.some.inj (known.symm.trans (here ▸ before))
          exact (h s x known).addStream absent rfl
        case isFalse => exact (h t y before).outlast (.append ..)
      · split at member
        case isTrue =>
          have member : q ∈ y.processors ++ [p] := by
            simpa [Session.processors, Session.addStream] using member
          obtain old | new := List.mem_append.mp member
          · exact .inr (.inr ⟨y, before, old⟩)
          · exact .inr (.inl (List.mem_singleton.mp new))
        case isFalse => exact .inr (.inr ⟨y, before, member⟩)
    have there : s < w.rig.sessions.length := (List.getElem?_eq_some_iff.mp known).1
    have takes (v : World S) (before : w.rig.sessions.length ≤ v.rig.sessions.length) :
        Ensures (takeStream app again s k p) v fun _ w' =>
          Furnishes v w' ∧ p < w'.rig.processors.length :=
      takeIn answers rfl (Nat.lt_of_lt_of_le there before) (tame.streamUpdate answers s k p _) _
        (fun _ _ h => h.sublist List.filter_sublist) fun x =>
          ((List.Sublist.refl _).append (List.filter_sublist.map _)).subset
    intro r w' run
    obtain ⟨taken, known⟩ := takes _ begun.sessions r w' run
    exact (begun.trans (taken.mono fun _ => False.elim)).looked fun q same => same ▸ known

theorem closeStream (x : Stream) : Keeps Furnishes (closeStream app again x) :=
  flow.bind (close answers _) fun _ => flow.bind (tame.setListener _ _) fun _ =>
    tame.resetEffect _

theorem removeStream (s : SessionId) (k : Ssrc) :
    Keeps Furnishes (removeStream app again s k) := by
  refine flow.bind (flow.session s) fun x => ?_
  split
  · exact flow.pure _
  · exact flow.bind (removes s k) fun _ => flow.bind (closeStream answers _) fun _ =>
      flow.bind (tame.sessionNotice s _) fun _ => flow.pure _

theorem closeSession (s : SessionId) : Keeps Furnishes (closeSession app again s) := by
  have drains (e : EffectId) (n : SessionNotice) : Keeps Furnishes (drain app again s e n) := by
    have closes (k : Ssrc × Stream) : Keeps Furnishes (Metering.closeStream app again k.2) :=
      closeStream answers k.2
    have empties : Keeps Furnishes (Run.modifySession s fun x => { x with streams := [] } :
        Run S Unit) := modifySession s (fun x _ h => h.sublist (List.nil_sublist _)) fun x =>
      ((List.Sublist.refl _).append (List.nil_sublist _)).subset
    exact flow.bind (flow.session s) fun _ => flow.bind empties fun _ =>
      flow.bind flow.get fun _ => flow.bind (flow.each closes _) fun _ =>
      flow.bind (tame.resetEffect _) fun _ => tame.sessionNotice s _
  have leaves : Keeps Furnishes (Run.modifySession s fun x => { x with capture := none } :
      Run S Unit) := modifySession s (fun _ _ h => ⟨h.distinct, h.made, h.named⟩) fun _ =>
    List.subset_append_right _ _
  refine flow.bind (flow.session s) fun x => flow.bind leaves fun _ => ?_
  dsimp only
  split
  · exact flow.bind (close answers _) fun _ => drains _ _
  · exact drains _ _

end Operations

theorem abiding (app : Application S) : Abiding app Furnishes where
  toTame := tame
  toDriven := (stable app).driven fun _ => trivial
  newSession := newSession
  setStreamListener := setStreamListener
  connectCapture _ answers := connectCapture answers
  addStream _ answers := addStream answers
  removeStream _ answers := removeStream answers
  closeSession _ answers := closeSession answers

end Furnishes

/-- What is there remains, and nothing comes to be held that is not. -/
theorem Furnishes.whole {w w' : World S} (h : Furnishes w w') (restores : ∀ q, Restores q w w')
    (before : w.rig.Whole) : w'.rig.Whole where
  proper := h.proper before.proper
  attended := h.attended before.attended
  held s x known q member := by
    obtain there | ⟨⟨⟩⟩ | ⟨y, was, member⟩ := h.held s x known q member
    · exact there
    · exact h.known_processor (before.held s y was q member)
  free q _ := (restores q).free (before.free q)

/-- Whatever an application did, all that sessions and processors have to do with is there. -/
theorem Rig.whole_of_run {app : Application S} {depth : Nat} {program : Program S α} {s : S}
    {a : α} {w : World S} (run : program.run (perform app depth) { app := s } = .ok (a, w)) :
    w.rig.Whole := by
  have furnishes := (Furnishes.abiding app).program depth program _ a w run
  have restores (q : ProcessorId) := (Restores.lawful app q).program depth program _ a w run
  exact furnishes.whole restores
    ⟨by simp [Rig.Proper], by simp [Rig.Attended], by simp, by simp⟩

end Metering
