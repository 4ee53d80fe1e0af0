import Metering.Proofs.Clearing
import Metering.Proofs.Commuting
import Metering.Proofs.Renewing
import Metering.Proofs.Resources
import Metering.Proofs.Transitions
/-!
Sessions that have been closed. Such a session holds nothing any more, what it held is closed or
silent for good, and what was registered with it is kept. From there on it cannot be told from a
new session with the same configuration and listeners.
-/

namespace Metering

variable {S α : Type}

/-- What is left of a session that has been closed. Nothing else has changed but processors. -/
structure Session.Vacated (x : Session) (s : SessionId) (w u : World S) : Prop where
  /-- The session holds nothing, and keeps what was registered for its streams. -/
  emptied : u.rig.sessions[s]? = some x.emptied
  levels : u.rig.levels x.emptied = ⟨none, none⟩
  /-- The listener for capture is kept. -/
  ear : ∃ z, w.rig.effects[x.localEffect]? = some z ∧
    u.rig.effects[x.localEffect]? = some z.reset
  streams : ∀ st ∈ x.streams, ∃ z, u.rig.effects[st.2.effect]? = some z ∧ z.listener = none ∧
    z.last = none
  closed : ∀ q ∈ x.processors, ∃ y, u.rig.processors[q]? = some y ∧ y.isExternal = false ∧
    y.phase = .closed ∧ ∀ t ∈ y.tracks, t.isOpen = false
  /-- What is still open stands in chains of other processors. -/
  released : ∀ k, net k u.journal = u.rig.inUse k ∧
    ((∀ (p : ProcessorId) (y : Processor), u.rig.processors[p]? = some y → p ∉ x.processors →
      y.inUse k = 0) → net k u.journal = 0)
  sessions : ∀ t, t ≠ s → u.rig.sessions[t]? = w.rig.sessions[t]?
  effects : ∀ e ∉ x.effects, u.rig.effects[e]? = w.rig.effects[e]?

section Closed

variable {app : Application S} {w u : World S} {s : SessionId} {x : Session} {q : ProcessorId}

/-- Closed processors remain closed if plug-ins do not call back. -/
theorem closed_remains (quiet : app.QuietPlugIns) {depth : Nat} {program : Program S α} {a : α}
    (run : program.run (perform app depth) w = .ok (a, u)) (closed : w.rig.phase q = .closed)
    (internal : u.rig.isExternal q = false) : u.rig.phase q = .closed := by
  have lawful : Lawful app (Proceeds (S := S) False q) := Proceeds.lawful (.inr quiet) q
  obtain ⟨v, -, course⟩ := (lawful.program depth program _ a u run).leads.course internal
  rw [show w.now.rig.phase q = .closed from closed] at course
  exact course.of_closed.2

/-- No frame goes through a processor that is closed. -/
theorem process_closed {y : Processor} (known : w.rig.processors[q]? = some y)
    (closed : y.phase = .closed) (depth : Nat) (i : Nat) (b : Buffer) :
    perform app (depth + 1) (.process q i b) w =
      .ok (.error (.invalidState (y.cannot "process")), w) := by
  refine (Run.bind_eq (Run.processor_eq known) _).trans ?_
  simp only [closed]
  rfl

/-- A session that holds nothing and has no last level is closed already. -/
theorem closeSession_vacant {again : {β : Type} → Call β → Run S β} {z : LevelEffect}
    (known : w.rig.sessions[s]? = some x) (free : x.capture = none) (empty : x.streams = [])
    (ear : w.rig.effects[x.localEffect]? = some z) (silent : z.reset = z) :
    closeSession app again s w =
      .ok ((), w.record (.notice (.session x.label (.closed x.device)))) := by
  have keeps {f : Session → Session} (fixed : f x = x) :
      (Run.modifySession s f : Run S Unit) w = .ok ((), w) := by
    have arranges : (Run.modifySession s f : Run S Unit) w = .ok ((), w.arrange s f) := rfl
    rw [arranges, World.arrange_of_fixed known fixed]
  have resets : (resetEffect x.localEffect : Run S Unit) w = .ok ((), w) := by
    have modifies : (resetEffect x.localEffect : Run S Unit) w = .ok ((), { w with rig :=
        { w.rig with effects := w.rig.effects.modify x.localEffect (·.reset) } }) := rfl
    rw [modifies, modify_of_fixed ear silent]
  refine (Run.bind_eq (Run.session_eq known) _).trans ?_
  refine (Run.bind_eq (keeps (by rw [← free])) _).trans ?_
  simp only [free]
  refine (Run.bind_eq (Run.session_eq known) _).trans ?_
  refine (Run.bind_eq (keeps (by rw [← empty])) _).trans ?_
  simp only [empty, Run.get_bind, Application.arranged_nil]
  refine (Run.bind_eq (m := Run.each _ _) rfl _).trans ?_
  refine (Run.bind_eq resets _).trans ?_
  exact (Run.bind_eq (Run.session_eq known) _).trans rfl

/-- To close such a session again changes nothing. -/
theorem perform_closeSession_vacant {z : LevelEffect} (known : w.rig.sessions[s]? = some x)
    (free : x.capture = none) (empty : x.streams = []) (used : 0 < x.users)
    (ear : w.rig.effects[x.localEffect]? = some z) (silent : z.reset = z) (depth : Nat) :
    perform app (depth + 1) (.closeSession s) w =
      .ok ((), w.record (.notice (.session x.label (.closed x.device)))) := by
  have known' : (w.arrange s Session.more).rig.sessions[s]? = some x.more :=
    World.arrange_session known
  have closes : closeSession app (perform app depth) s (w.arrange s Session.more) = .ok ((),
      (w.arrange s Session.more).record (.notice (.session x.label (.closed x.device)))) :=
    closeSession_vacant (x := x.more) known' free empty ear silent
  refine (Run.bind_eq (m := Run.modifySession s Session.more) rfl _).trans ?_
  refine (Run.bind_eq closes _).trans ?_
  have last : ((w.arrange s Session.more).record
      (.notice (.session x.label (.closed x.device)))).rig.sessions[s]? = some x.more := known'
  refine (Run.bind_eq (releaseSession_eq last (Session.many_more used) _) _).trans ?_
  simp only [World.arrange, World.record_rig, sessions_back known]
  rfl

end Closed

section Vacated

variable {app : Application S} {w u : World S} {s : SessionId} {x : Session}

/-- Nothing of a kind is in use if no processor has it open. -/
theorem Rig.inUse_eq_zero {r : Rig} {k : Kind}
    (idle : ∀ (p : ProcessorId) (y : Processor), r.processors[p]? = some y → y.inUse k = 0) :
    r.inUse k = 0 := by
  refine List.sum_eq_zero fun n member => ?_
  obtain ⟨y, within, rfl⟩ := List.mem_map.mp member
  obtain ⟨p, known⟩ := List.mem_iff_getElem?.mp within
  exact idle p y known

/-- What is still open stands in chains of processors that are not shut. -/
theorem World.Balanced.released (h : u.Balanced) (shut : ProcessorId → Prop)
    (closed : ∀ q, shut q → ∃ y, u.rig.processors[q]? = some y ∧ ∀ t ∈ y.tracks, t.isOpen = false)
    (k : Kind) : net k u.journal = u.rig.inUse k ∧
      ((∀ (p : ProcessorId) (y : Processor), u.rig.processors[p]? = some y → ¬shut p →
        y.inUse k = 0) → net k u.journal = 0) := by
  have net : net k u.journal = u.rig.inUse k := h.now.net k
  refine ⟨net, fun idle => ?_⟩
  have none : u.rig.inUse k = 0 := by
    refine Rig.inUse_eq_zero fun p y here => ?_
    by_cases held : shut p
    · obtain ⟨y', here', shut⟩ := closed p held
      obtain rfl := Option.some.inj (here'.symm.trans here)
      exact Processor.inUse_of_shut fun i t track => shut t (List.mem_of_getElem? track)
    · exact idle p y here held
  rw [net, none]
  rfl

/-- A session that is closed leaves nothing behind. -/
theorem Session.vacates (quiet : app.Quiet) (balanced : w.Balanced) (whole : w.rig.Whole)
    (known : w.rig.sessions[s]? = some x) (used : 0 < x.users)
    (internal : ∀ q ∈ x.processors, w.rig.isExternal q = false) (depth : Nat) :
    Yields (perform app (depth + 2) (.closeSession s)) w fun _ u => x.Vacated s w u := by
  have serves (q : ProcessorId) (member : q ∈ x.processors) : w.rig.Serves q :=
    whole.serves known member (internal q member)
  have clears : Yields (perform app (depth + 2) (.closeSession s)) w _ :=
    Recasts.perform_closeSession quiet known used serves
  obtain ⟨r, u, run, recasts, shut⟩ := clears
  have balanced' : u.Balanced :=
    (Balances.lawful quiet.toQuietPlugIns).perform (depth + 2) (.closeSession s) w r u run balanced
  have proper := whole.proper s x known
  have closed (q : ProcessorId) (member : q ∈ x.processors) : ∃ y,
      u.rig.processors[q]? = some y ∧ y.isExternal = false ∧ y.phase = .closed ∧
        ∀ t ∈ y.tracks, t.isOpen = false := by
    obtain ⟨y, here, soft, -⟩ := serves q member
    obtain ⟨y', here', external, -⟩ := recasts.processors q y here
    have phase : y'.phase = .closed := (Rig.phase_of here').symm.trans (shut q member)
    have down : y'.phase.isUp = false := by
      rw [phase]
      rfl
    refine ⟨y', here', external.trans soft, phase, fun t within => ?_⟩
    obtain ⟨i, track⟩ := List.mem_iff_getElem?.mp within
    exact (balanced'.now.sound q y' here').shut (.inr down) i t track
  obtain ⟨z, ear, -⟩ := proper.made x.localEffect List.mem_cons_self
  have ear' : u.rig.effects[x.localEffect]? = some z.reset := by
    rw [recasts.effects, ear, Option.map_some, Session.quiets_ear proper.distinct]
  -- The session, its levels, the effects of its streams, the resources, and then what must not have
  -- changed: the other sessions and the other effects.
  refine ⟨r, u, run, ?_, ?_, ⟨z, ear, ear'⟩, fun st member => ?_, closed, fun k => ?_,
    fun t other => ?_, fun e other => ?_⟩
  · rw [recasts.sessions, known]
    simp
  · have capture : u.rig.lastLevel x.localEffect = none := by
      rw [Rig.lastLevel, ear']
      rfl
    exact congrArg (Levels.mk · none) capture
  · have ofStream : st.2.effect ∈ x.streams.map (·.2.effect) := List.mem_map_of_mem member
    obtain ⟨z, here, -⟩ := proper.made st.2.effect (List.mem_cons_of_mem _ ofStream)
    refine ⟨(z.setListener none).reset, ?_, rfl, rfl⟩
    rw [recasts.effects, here, Option.map_some, Session.quiets_stream ofStream]
  · refine balanced'.released (· ∈ x.processors) (fun q member => ?_) k
    obtain ⟨y, here, -, -, tracks⟩ := closed q member
    exact ⟨y, here, tracks⟩
  · rw [recasts.sessions]
    simp [other]
  · have same : x.quiets e = id := funext fun z => Session.quiets_other other
    rw [recasts.effects, same, Option.map_id, id]

/-- The worlds are the same but for the order in which a session goes through its streams. -/
def World.Reorders (s : SessionId) (x : Session) (w v : World S) : Prop :=
  ∃ streams, streams.Perm x.streams ∧ v = w.arrange s fun y => { y with streams }

theorem World.Reorders.refl (known : w.rig.sessions[s]? = some x) : World.Reorders s x w w :=
  ⟨x.streams, .refl _, (World.arrange_of_fixed known rfl).symm⟩

section Order

variable {streams : List (Ssrc × Stream)} (order : streams.Perm x.streams)
include order

theorem mem_effects_perm {e : EffectId} :
    e ∈ ({ x with streams } : Session).effects ↔ e ∈ x.effects :=
  ((order.map _).cons _).mem_iff

theorem mem_processors_perm {q : ProcessorId} :
    q ∈ ({ x with streams } : Session).processors ↔ q ∈ x.processors :=
  ((order.map _).append_left _).mem_iff

theorem Furnishes.reorder (whole : w.rig.Whole) (known : w.rig.sessions[s]? = some x) :
    Furnishes w (w.arrange s fun y => { y with streams }) := by
  have arranged : Supplies (· ∈ x.processors) w (w.arrange s fun y => { y with streams }) := by
    refine .arrange (fun y here proper => ?_) fun y q member => ?_
    · obtain rfl := Option.some.inj (known.symm.trans here)
      exact ⟨((order.map _).cons _).nodup_iff.mpr proper.distinct,
        fun e member => proper.made e ((mem_effects_perm order).mp member),
        (order.map _).nodup_iff.mpr proper.named⟩
    · obtain inUse | ofStream := List.mem_append.mp member
      · exact .inr (List.mem_append_left _ inUse)
      · exact .inl (List.mem_append_right _ ((order.map _).mem_iff.mp ofStream))
  exact arranged.looked fun q member => whole.held s x known q member

theorem Session.Vacated.reorder
    (h : ({ x with streams } : Session).Vacated s (w.arrange s fun y => { y with streams }) u) :
    x.Vacated s w u where
  emptied := h.emptied
  levels := h.levels
  ear := h.ear
  streams st member := h.streams st (order.mem_iff.mpr member)
  closed q member := h.closed q ((mem_processors_perm order).mpr member)
  released k := ⟨(h.released k).1, fun idle => (h.released k).2 fun p y here other =>
    idle p y here fun member => other ((mem_processors_perm order).mpr member)⟩
  sessions t other := by
    rw [h.sessions t other]
    simp [World.arrange, Ne.symm other]
  effects e other := h.effects e fun member => other ((mem_effects_perm order).mp member)

end Order

end Vacated

/-- Whatever the session is asked to do with processors that no session has to do with, and whatever
is done with these, comes to the same with a new session that has its configuration, its listener
for streams and a listener for capture. -/
def World.AsNew (app : Application S) (v : World S) (s : SessionId) (x : Session)
    (l : Option ListenerId) : Prop :=
  ∃ made : x.localEffect < v.rig.effects.length, ∀ fresh : ProcessorId → Prop,
    (∀ q, fresh q → ∀ y, v.rig.processors[q]? = some y → v.rig.Fresh x.localEffect y) →
    ∀ {γ : Type} (later : Program S γ), later.Makes (Deed.Engages fresh s) →
    ∀ label device depth depth',
      Alike ((v.renewal s x made fresh).mirror.Reflects fun _ => 0)
        (later.run (perform app depth) v)
        ((do
          renew app (depth' + 1) label device x.config l x.streamListener
          (later.rename fun _ => v.rig.sessions.length).run (perform app depth)) v)

/-- A session that holds nothing and has no last level is as good as new. -/
theorem asNew_of_vacant {app : Application S} (quiet : app.Quiet) {v : World S} {s : SessionId}
    {x : Session} {z : LevelEffect} (known : v.rig.sessions[s]? = some x) (used : 0 < x.users)
    (free : x.capture = none) (empty : x.streams = [])
    (ear : v.rig.effects[x.localEffect]? = some z)
    (silent : z.calculator = { config := x.config.effect }) :
    v.AsNew app s x z.listener := by
  have made := (List.getElem?_eq_some_iff.mp ear).1
  refine ⟨made, fun fresh unused γ later makes label device depth depth' => ?_⟩
  have begins : (v.renewal s x made fresh).mirror.Reflects (fun _ => 0) v
      (v.renewed label device x.config z.listener x.streamListener) :=
    Renewal.begins known used free empty made ear silent unused
  have follows := Mirror.Echo.program makes (fun c kind =>
    Renewal.engages (g := v.renewal s x made fresh) quiet depth c kind) _ _ _ begins
  rwa [Run.bind_eq (renew_eq depth' x.config) _]

/-- When a session is closed, whatever it holds, in whatever phases its processors are and in
whatever order it goes through its streams, it holds nothing any more. What it held is closed or
silent, and what was registered with it is kept. To close it again changes nothing. No frame ever
goes through these processors again. And as long as the session is not used, it is as good as
new. -/
theorem close_vacates {app : Application S} (quiet : app.Quiet) {depth₀ : Nat}
    {program : Program S α} {b : S} {a : α} {w : World S}
    (run : program.run (perform app depth₀) { app := b } = .ok (a, w)) {s : SessionId} {x : Session}
    (known : w.rig.sessions[s]? = some x) (used : 0 < x.users)
    (internal : ∀ q ∈ x.processors, w.rig.isExternal q = false) {w' : World S}
    (order : World.Reorders s x w w') (depth : Nat) :
    ∃ z u, w.rig.effects[x.localEffect]? = some z ∧
      perform app (depth + 2) (.closeSession s) w' = .ok ((), u) ∧ x.Vacated s w u ∧
      (∀ depth, perform app (depth + 1) (.closeSession s) u =
        .ok ((), u.record (.notice (.session x.label (.closed x.device))))) ∧
      ∀ {β : Type} (further : Program S β) (depth' : Nat) (c : β) (v : World S),
        further.run (perform app depth') u = .ok (c, v) →
        (∀ q ∈ x.processors, ∃ y, v.rig.processors[q]? = some y ∧ y.phase = .closed ∧
          ∀ depth i frame, perform app (depth + 1) (.process q i frame) v =
            .ok (.error (.invalidState (y.cannot "process")), v)) ∧
        (v.rig.sessions[s]? = u.rig.sessions[s]? →
          v.rig.effects[x.localEffect]? = u.rig.effects[x.localEffect]? →
          v.AsNew app s x.emptied z.listener) := by
  obtain ⟨streams, order, rfl⟩ := order
  have balanced := World.balanced_of_run quiet.toQuietPlugIns run
  have whole := Rig.whole_of_run run
  -- With its streams in another order the rig is as balanced and as whole as before.
  have balanced' : (w.arrange s fun y => { y with streams }).Balanced :=
    ⟨⟨balanced.now.net, balanced.now.sound, balanced.now.ready⟩, balanced.moments⟩
  have known' : (w.arrange s fun y => { y with streams }).rig.sessions[s]? =
      some { x with streams } := World.arrange_session known
  have closes := Session.vacates quiet balanced'
    ((Furnishes.reorder order whole known).whole (fun _ => .of_processors rfl) whole) known' used
    (fun q member => internal q ((mem_processors_perm order).mp member)) depth
  obtain ⟨⟨⟩, u, closes, vacated⟩ := closes
  replace vacated : x.Vacated s w u := vacated.reorder order
  obtain ⟨z, ear, ear'⟩ := vacated.ear
  refine ⟨z, u, ear, closes, vacated, ?_,
    fun further depth' c v run' => ⟨fun q member => ?_, fun unused unused' => ?_⟩⟩
  · exact perform_closeSession_vacant (x := x.emptied) vacated.emptied rfl rfl used ear' rfl
  · obtain ⟨y, here, soft, closed, -⟩ := vacated.closed q member
    obtain ⟨y', here', external⟩ :=
      ((Furnishes.abiding app).program depth' further u c v run').processors q y here
    have internal' : v.rig.isExternal q = false :=
      (Rig.isExternal_of here').trans (external.trans soft)
    have closed' : y'.phase = .closed := (Rig.phase_of here').symm.trans
      (closed_remains quiet.toQuietPlugIns run' ((Rig.phase_of here).trans closed) internal')
    exact ⟨y', here', closed', process_closed here' closed'⟩
  · have config : z.reset.calculator = { config := x.config.effect } := by
      obtain ⟨z', ear'', same⟩ := (whole.proper s x known).made x.localEffect List.mem_cons_self
      obtain rfl := Option.some.inj (ear.symm.trans ear'')
      rw [← same]
      rfl
    exact asNew_of_vacant (x := x.emptied) (z := z.reset) quiet (unused.trans vacated.emptied) used
      rfl rfl (unused'.trans ear') config

def Program.arrival : Program Unit ProcessorId :=
  .send (.newProcessor "t" [⟨.audio .telephone, true⟩])

theorem close_vacates_silent : (Application.silent Unit).Quiet ∧
    ∃ w x, Program.gathering.run (perform (.silent Unit) 8) { app := () } = .ok ((), w) ∧
      w.rig.sessions[0]? = some x ∧ 0 < x.users ∧ x.processors = [0, 1] ∧
      ∃ z u v, perform (.silent Unit) 8 (.closeSession 0) w = .ok ((), u) ∧ x.Vacated 0 w u ∧
        Program.arrival.run (perform (.silent Unit) 1) u = .ok (u.rig.processors.length, v) ∧
        (∃ y, v.rig.processors[u.rig.processors.length]? = some y ∧ v.rig.Fresh x.localEffect y) ∧
        v.AsNew (.silent Unit) 0 x.emptied (LevelEffect.listener z) := by
  have quiet := Application.silent_quiet Unit
  have ends : (Program.gathering.run (perform (.silent Unit) 8)).Ends { app := () } fun w =>
      (∀ y ∈ w.rig.processors, y.isExternal = false) ∧
      (w.rig.sessions[0]?).any (fun x => x.users == 1 && x.processors == [0, 1]) := by
    decide +kernel
  obtain ⟨_, w, run, soft, session⟩ := ends
  obtain ⟨x, known, found⟩ := (Option.any_eq_true _ _).mp session
  obtain ⟨one, holds⟩ := Bool.and_eq_true_iff.mp found
  have used : 0 < x.users := by
    rw [eq_of_beq one]
    decide
  have internal := Rig.isExternal_of_soft soft
  obtain ⟨z, u, -, closes, vacated, -, after⟩ :=
    close_vacates quiet run known used (fun q _ => internal q) (.refl known) 6
  obtain ⟨v, grown, adds⟩ : ∃ v : World Unit,
      v.rig = { u.rig with
        processors := u.rig.processors ++ [.new "t" [⟨.audio .telephone, true⟩]] } ∧
      Program.arrival.run (perform (.silent Unit) 1) u = .ok (u.rig.processors.length, v) :=
    ⟨_, rfl, rfl⟩
  have made : v.rig.processors[u.rig.processors.length]? =
      some (.new "t" [⟨.audio .telephone, true⟩]) := by
    rw [grown]
    exact List.getElem?_concat_length
  refine ⟨quiet, w, x, run, known, used, eq_of_beq holds, z, u, v, closes, vacated, adds,
    ⟨_, made, Rig.fresh_new ..⟩, ?_⟩
  exact (after Program.arrival 1 _ v adds).2 (by rw [grown]) (by rw [grown])

end Metering
