import Metering.Proofs.Holdings
import Metering.Proofs.Mirrored
/-!
What is left of a session that is closed. If the application does not call back, to close a
processor changes nothing but processors, so it can be said in full what becomes of the effects and
of the sessions when a session closes all of its processors. That this comes to an end is shown on
the way.
-/

namespace Metering

variable {S α β : Type}

/-- How the effects and the sessions have changed. Processors remain, with those who have subscribed
to them, and closed ones remain closed. -/
structure Recasts (f : EffectId → LevelEffect → LevelEffect) (g : SessionId → Session → Session)
    (w w' : World S) : Prop where
  effects : ∀ e, w'.rig.effects[e]? = (w.rig.effects[e]?).map (f e)
  sessions : ∀ t, w'.rig.sessions[t]? = (w.rig.sessions[t]?).map (g t)
  processors : ∀ (q : ProcessorId) (y : Processor), w.rig.processors[q]? = some y →
    ∃ y', w'.rig.processors[q]? = some y' ∧ y'.isExternal = y.isExternal ∧
      y'.subscribers = y.subscribers ∧ y'.held = y.held ∧
      (y.phase = .closed → y'.phase = .closed)

/-- Nothing has changed but processors. -/
abbrev Spares (w w' : World S) : Prop := Recasts (fun _ => id) (fun _ => id) w w'

namespace Session

def emptied (x : Session) : Session := { x with capture := none, streams := [] }

/-- What becomes of an effect when the session is closed. -/
def quiets (x : Session) (e : EffectId) (z : LevelEffect) : LevelEffect :=
  if e ∈ x.streams.map (·.2.effect) then (z.setListener none).reset
  else if e = x.localEffect then z.reset else z

section Quiets

variable {x : Session} {e : EffectId} {z : LevelEffect}

theorem quiets_stream (ofStream : e ∈ x.streams.map (·.2.effect)) :
    x.quiets e z = (z.setListener none).reset := if_pos ofStream

theorem quiets_ear (distinct : x.effects.Nodup) : x.quiets x.localEffect z = z.reset := by
  rw [quiets, if_neg (List.nodup_cons.mp distinct).1, if_pos rfl]

theorem quiets_other (other : e ∉ x.effects) : x.quiets e z = z := by
  obtain ⟨apart, silent⟩ := not_or.mp (mt List.mem_cons.mpr other)
  rw [quiets, if_neg silent, if_neg apart]

end Quiets

end Session

/-- The processor is one of the rig, none of its chains is held, and all sessions that have
subscribed to it are there. -/
def Rig.Serves (r : Rig) (q : ProcessorId) : Prop :=
  ∃ y, r.processors[q]? = some y ∧ y.isExternal = false ∧ y.held = [] ∧
    ∀ z ∈ y.subscribers, ∀ t ∈ z.session?, ∃ x, r.sessions[t]? = some x

theorem Rig.Whole.serves {r : Rig} (h : r.Whole) {s : SessionId} {x : Session}
    (known : r.sessions[s]? = some x) {q : ProcessorId} (member : q ∈ x.processors)
    (internal : r.isExternal q = false) : r.Serves q := by
  have here := List.getElem?_eq_getElem (h.held s x known q member)
  exact ⟨_, here, (Rig.isExternal_of here).symm.trans internal, h.free q _ here,
    fun z joined t same => ⟨_, List.getElem?_eq_getElem (h.attended q _ here z joined t same)⟩⟩

/-- A session that gets one user more and loses one is as before. -/
theorem sessions_back {r : Rig} {s : SessionId} {x : Session} (known : r.sessions[s]? = some x) :
    (r.sessions.modify s Session.more).modify s (fun y => { y with users := x.more.users - 1 }) =
      r.sessions := by
  rw [List.modify_modify_eq]
  exact modify_of_fixed known rfl

namespace Recasts

variable {f f' : EffectId → LevelEffect → LevelEffect} {g g' : SessionId → Session → Session}
variable {u v w : World S} {q : ProcessorId}

theorem trans (first : Recasts f g u v) (second : Recasts f' g' v w) :
    Recasts (fun e z => f' e (f e z)) (fun t x => g' t (g t x)) u w where
  effects e := by rw [second.effects, first.effects, Option.map_map]; rfl
  sessions t := by rw [second.sessions, first.sessions, Option.map_map]; rfl
  processors q y known := by
    obtain ⟨y', known', external, subscribers, held, closed⟩ := first.processors q y known
    obtain ⟨y'', known'', external', subscribers', held', closed'⟩ := second.processors q y' known'
    exact ⟨y'', known'', external'.trans external, subscribers'.trans subscribers,
      held'.trans held, fun h => closed' (closed h)⟩

theorem congr (h : Recasts f g u v) (effects : ∀ e z, u.rig.effects[e]? = some z → f e z = f' e z)
    (sessions : ∀ t x, u.rig.sessions[t]? = some x → g t x = g' t x) : Recasts f' g' u v where
  effects e := by
    rw [h.effects]
    cases known : u.rig.effects[e]? with
    | none => rfl
    | some z => exact congrArg some (effects e z known)
  sessions t := by
    rw [h.sessions]
    cases known : u.rig.sessions[t]? with
    | none => rfl
    | some x => exact congrArg some (sessions t x known)
  processors := h.processors

theorem serves (h : Recasts f g u v) (serves : u.rig.Serves q) : v.rig.Serves q := by
  obtain ⟨y, known, internal, free, attended⟩ := serves
  obtain ⟨y', known', external, subscribers, held, -⟩ := h.processors q y known
  refine ⟨y', known', external.trans internal, held.trans free, fun z member t same => ?_⟩
  obtain ⟨x, known⟩ := attended z (subscribers ▸ member) t same
  exact ⟨g t x, by rw [h.sessions, known]; rfl⟩

theorem closed (h : Recasts f g u v) (closed : u.rig.phase q = .closed) :
    v.rig.phase q = .closed := by
  obtain ⟨y, known, closed⟩ := Rig.known_of_closed closed
  obtain ⟨y', known', -, -, -, shut⟩ := h.processors q y known
  exact (Rig.phase_of known').trans (shut closed)

theorem of_rig (same : v.rig = u.rig) : Spares u v where
  effects e := by simp [same]
  sessions t := by simp [same]
  processors q y known := ⟨y, same ▸ known, rfl, rfl, rfl, id⟩

theorem record (h : Recasts f g u v) (e : Entry) : Recasts f g u (v.record e) :=
  ⟨h.effects, h.sessions, h.processors⟩

theorem modify {h : Processor → Processor} (external : ∀ y, (h y).isExternal = y.isExternal)
    (subscribers : ∀ y, (h y).subscribers = y.subscribers) (held : ∀ y, (h y).held = y.held)
    (closed : ∀ y, y.phase = .closed → (h y).phase = .closed) : Spares u (u.modify q h) where
  effects e := by simp [World.modify]
  sessions t := by simp [World.modify]
  processors r y known := by
    rw [World.modify_processors, List.getElem?_modify, known]
    refine ⟨_, rfl, ?_⟩
    dsimp only
    split
    · exact ⟨external y, subscribers y, held y, closed y⟩
    · exact ⟨rfl, rfl, rfl, id⟩

theorem modifyEffect (e : EffectId) (h : LevelEffect → LevelEffect) :
    Recasts (fun a z => if a = e then h z else z) (fun _ => id) u
      { u with rig := { u.rig with effects := u.rig.effects.modify e h } } where
  effects a := by
    rw [List.getElem?_modify]
    cases u.rig.effects[a]? with
    | none => rfl
    | some z => simp [eq_comm]
  sessions t := by simp
  processors q y known := ⟨y, known, rfl, rfl, rfl, id⟩

theorem arrange (s : SessionId) (h : Session → Session) :
    Recasts (fun _ => id) (fun t x => if t = s then h x else x) u (u.arrange s h) where
  effects e := by simp [World.arrange]
  sessions t := by
    rw [World.arrange, List.getElem?_modify]
    cases u.rig.sessions[t]? with
    | none => rfl
    | some x => simp [eq_comm]
  processors q y known := ⟨y, known, rfl, rfl, rfl, id⟩

end Recasts

namespace Spares

variable {u v w : World S} {q : ProcessorId}

theorem trans (first : Spares u v) (second : Spares v w) : Spares u w := Recasts.trans first second

theorem bind {m : Run S β} {f : β → Run S α} (first : Yields m w fun _ w' => Spares w w')
    (rest : ∀ b v, Spares w v → Yields (f b) v fun _ w' => Spares v w') :
    Yields (m >>= f) w fun _ w' => Spares w w' :=
  first.bind fun b v spared => (rest b v spared).mono fun _ _ h => spared.trans h

theorem each {f : β → Run S Unit} {bs : List β}
    (one : ∀ b ∈ bs, ∀ v, Spares w v → Yields (f b) v fun _ w' => Spares v w') :
    Yields (Run.each f bs) w fun _ w' => Spares w w' := by
  induction bs generalizing w with
  | nil => exact yields_pure.mpr (.of_rig rfl)
  | cons b bs ih =>
    refine bind (one b List.mem_cons_self w (.of_rig rfl)) fun _ v spared => ?_
    exact ih fun b' member v' rest => one b' (List.mem_cons_of_mem _ member) v' (spared.trans rest)

theorem record (e : Entry) : Yields (Run.record e) w fun _ w' => Spares w w' :=
  yields_record.mpr (.of_rig rfl)

theorem letGo (spared : Spares u v) :
    Spares (u.modify q (·.letGo)) (v.modify q (·.letGo)) where
  effects := spared.effects
  sessions := spared.sessions
  processors p y known := by
    rw [World.modify_processors, List.getElem?_modify, Option.map_eq_map,
      Option.map_eq_some_iff] at known
    obtain ⟨x, known, rfl⟩ := known
    obtain ⟨x', known', external, subscribers, held, closed⟩ := spared.processors p x known
    rw [World.modify_processors, List.getElem?_modify, known']
    refine ⟨_, rfl, ?_⟩
    dsimp only
    split
    · exact ⟨external, subscribers, congrArg List.tail held, closed⟩
    · exact ⟨external, subscribers, held, closed⟩

theorem holding {x : Processor} (known : w.rig.processors[q]? = some x) (free : x.held = [])
    {i : Nat} {calls : Run S α} (does : ∀ u, Yields calls u fun _ v => Spares u v) :
    Yields (Run.holding q i calls) w fun _ w' => Spares w w' :=
  Yields.holding (R := fun u _ v => Spares u v) known (by simp [free]) letGo (does _)

theorem quiet {p : Program S α} {again : {β : Type} → Call β → Run S β} (quiet : p.Quiet) :
    Yields (p.run again) w fun _ w' => Spares w w' :=
  (quiet.settles w).mono fun _ _ same => .of_rig same

end Spares

section Closing

variable {app : Application S} {again : {β : Type} → Call β → Run S β} {w : World S}
variable {q : ProcessorId} {depth : Nat} (quiet : app.Quiet)
include quiet

theorem Spares.closePlugIn (x : PlugIn) :
    Yields (Chain.closePlugIn app again x) w fun _ w' => Spares w w' := by
  cases x with
  | effect => exact record _
  | codec c =>
    exact bind (record _) fun _ _ _ => bind (Spares.quiet (quiet.close c)) fun _ _ _ => record _

theorem Spares.closeTrack (serves : w.rig.Serves q) (i : Nat) :
    Yields (closeTrack app again q i) w fun _ w' => Spares w w' := by
  obtain ⟨y, known, -, free, -⟩ := serves
  refine Yields.track known ?_
  cases y.tracks[i]? with
  | none => exact yields_pure.mpr (.of_rig rfl)
  | some t =>
    dsimp only
    split
    · have shut : Spares w (w.modify q (·.modifyTrack i fun t => { t with isOpen := false })) :=
        .modify (fun _ => rfl) (fun _ => rfl) (fun _ => rfl) fun _ => id
      refine yields_bind.mpr (yields_modifyProcessor.mpr ?_)
      exact (holding (World.modify_processor known) free fun _ => each fun x _ _ _ =>
        closePlugIn quiet x).mono fun _ _ rest => shut.trans rest
    · exact yields_pure.mpr (.of_rig rfl)

omit quiet in
/-- A session is told that a processor is closed and writes it down. -/
theorem Spares.whileUsed {s : SessionId} {body : Run S Unit}
    (there : ∃ x, w.rig.sessions[s]? = some x) (rests : ∀ v : World S,
      (∃ x, v.rig.sessions[s]? = some x) → Yields body v fun _ w' => w'.rig = v.rig) :
    Yields (whileUsed (perform app (depth + 1)) s body) w fun _ w' => Spares w w' := by
  obtain ⟨x, known⟩ := there
  refine Yields.session known ?_
  split
  case isFalse => exact yields_pure.mpr (.of_rig rfl)
  case isTrue used =>
    refine yields_bind.mpr (yields_modifySession.mpr (yields_bind.mpr ?_))
    have begun : (w.arrange s Session.more).rig.sessions[s]? = some x.more :=
      World.arrange_session known
    refine (rests (w.arrange s Session.more) ⟨_, begun⟩).mono fun _ v same => ?_
    refine ⟨(), _, releaseSession_eq (same ▸ begun) (Session.many_more used) _, .of_rig ?_⟩
    simp only [World.arrange, same, sessions_back known]

theorem Spares.hear {z : Subscriber}
    (there : ∀ t ∈ z.session?, ∃ x, w.rig.sessions[t]? = some x) :
    Yields (hear app (perform app (depth + 1)) q .closed z) w fun _ w' => Spares w w' := by
  have notes (s : SessionId) (n : SessionNotice) (v : World S)
      (known : ∃ x, v.rig.sessions[s]? = some x) :
      Yields (sessionNotice s n) v fun _ w' => w'.rig = v.rig := by
    obtain ⟨x, known⟩ := known
    exact Yields.session known (yields_notice.mpr rfl)
  cases z with
  | watcher x => exact Spares.quiet (quiet.event x q .closed)
  | capture s =>
    refine Spares.whileUsed (there s rfl) fun v known => ?_
    exact Yields.session known.choose_spec (notes s _ v known)
  | stream s k => exact Spares.whileUsed (there s rfl) fun v known => notes s _ v known

theorem Spares.emit (serves : w.rig.Serves q) :
    Yields (emit app (perform app (depth + 1)) q .closed) w fun _ w' => Spares w w' := by
  refine bind (record _) fun _ v spared => ?_
  obtain ⟨y, known, -, -, there⟩ := spared.serves serves
  refine Yields.processor known (each fun z member v' spared' => ?_)
  refine bind (record _) fun _ v'' spared'' => Spares.hear quiet fun t same => ?_
  obtain ⟨x, known⟩ := there z member t same
  exact ⟨x, by rw [spared''.sessions, spared'.sessions, known]; rfl⟩

/-- A processor of the rig can always be closed, and only processors change by it. -/
theorem Spares.close (serves : w.rig.Serves q) :
    Yields (close app (perform app (depth + 1)) q) w fun _ w' =>
      Spares w w' ∧ w'.rig.phase q = .closed := by
  obtain ⟨y, known, internal, -⟩ := id serves
  refine Yields.processor known ?_
  simp only [internal, Bool.false_eq_true, if_false]
  by_cases closed : y.phase = .closed
  · rw [if_neg (by simp [Phase.isClosed, closed])]
    exact yields_pure.mpr ⟨.of_rig rfl, (Rig.phase_of known).trans closed⟩
  · rw [if_pos (by simp [Phase.isClosed, closed])]
    have moved : Yields (Run.moveTo q .closed) w fun _ v =>
        Spares w v ∧ v.rig.phase q = .closed := by
      refine Yields.processor known (yields_bind.mpr (yields_modifyProcessor.mpr ?_))
      refine yields_record.mpr ⟨?_, ?_⟩
      · exact (Recasts.modify (fun _ => rfl) (fun _ => rfl) (fun _ => rfl) fun _ _ => rfl : Spares w
          (w.modify q fun x => { x with phase := .closed })).trans (.of_rig rfl)
      · exact Rig.phase_of (World.modify_processor known)
    refine moved.bind fun _ v next => ?_
    obtain ⟨spared, closed⟩ := next
    have ends {u : World S} (spared : Spares w u) : Yields (do
        Run.notice (.processor y.name .closed)
        Metering.emit app (perform app (depth + 1)) q .closed) u fun _ w' => Spares u w' :=
      bind (record _) fun _ _ spared' =>
        Spares.emit quiet ((spared.trans spared').serves serves)
    refine Yields.mono (P := fun _ w' => Spares v w') ?_ fun _ _ rest =>
      ⟨spared.trans rest, rest.closed closed⟩
    split
    · refine bind (each fun i _ v' spared' => closeTrack quiet ((spared.trans spared').serves
        serves) i) fun _ v' spared' => ends (spared.trans spared')
    · exact ends spared

theorem Recasts.closeStream {st : Stream} (serves : w.rig.Serves st.processor) :
    Yields (closeStream app (perform app (depth + 1)) st) w fun _ w' =>
      Recasts (fun e z => if e = st.effect then (z.setListener none).reset else z) (fun _ => id)
        w w' ∧ w'.rig.phase st.processor = .closed := by
  refine (Spares.close quiet serves).bind fun _ v next => ?_
  obtain ⟨spared, closed⟩ := next
  refine yields_bind.mpr (yields_modifyEffect.mpr (yields_modifyEffect.mpr ?_))
  have silenced := (Recasts.modifyEffect (u := v) st.effect (·.setListener none)).trans
    (.modifyEffect st.effect (·.reset))
  refine ⟨(Recasts.trans spared silenced).congr (fun e z _ => ?_) fun _ _ _ => rfl,
    silenced.closed closed⟩
  by_cases here : e = st.effect
  · simp [here]
  · simp [here]

theorem Recasts.closeStreams {streams : List (Ssrc × Stream)}
    (serves : ∀ st ∈ streams, w.rig.Serves st.2.processor) :
    Yields (Run.each (fun st => Metering.closeStream app (perform app (depth + 1)) st.2) streams) w
      fun _ w' => Recasts (fun e z => if e ∈ streams.map (·.2.effect) then
          (z.setListener none).reset else z) (fun _ => id) w w' ∧
        ∀ st ∈ streams, w'.rig.phase st.2.processor = .closed := by
  induction streams generalizing w with
  | nil => exact yields_pure.mpr ⟨.of_rig rfl, nofun⟩
  | cons st streams ih =>
    refine (Recasts.closeStream quiet (serves st List.mem_cons_self)).bind
      fun _ v ⟨first, closed⟩ => ?_
    refine (ih fun st' member => first.serves (serves st' (List.mem_cons_of_mem _ member))).mono
      fun _ w' ⟨rest, others⟩ => ⟨?_, ?_⟩
    · refine (first.trans rest).congr (fun e z _ => ?_) fun _ _ _ => rfl
      simp only [List.map_cons, List.mem_cons]
      by_cases here : e = st.2.effect
      · -- It makes no difference that an effect falls silent twice.
        simp only [here, if_true, true_or]
        split <;> rfl
      · simp only [here, if_false, false_or]
    · intro st' member
      obtain rfl | member := List.mem_cons.mp member
      · exact rest.closed closed
      · exact others st' member

/-- The session has given up the processor in use for capture, and gives up all of its streams. -/
theorem Recasts.drain {s : SessionId} {x : Session} (known : w.rig.sessions[s]? = some x)
    (serves : ∀ q ∈ x.processors, w.rig.Serves q) {v : World S}
    (spared : Spares (w.arrange s fun x => { x with capture := none }) v)
    (closed : ∀ q ∈ x.capture, v.rig.phase q = .closed) :
    Yields (drain app (perform app (depth + 1)) s x.localEffect (.closed x.device)) v fun _ w' =>
      Recasts x.quiets (fun t y => if t = s then y.emptied else y) w w' ∧
        ∀ q ∈ x.processors, w'.rig.phase q = .closed := by
  have ofStream (st : Ssrc × Stream) (member : st ∈ x.streams) : st.2.processor ∈ x.processors :=
    List.mem_append_right _ (List.mem_map_of_mem member)
  have first :=
    Recasts.trans (Recasts.arrange (u := w) s fun x => { x with capture := none }) spared
  have there : v.rig.sessions[s]? = some { x with capture := none } := by
    rw [first.sessions, known]
    simp
  refine Yields.session there (yields_bind.mpr (yields_modifySession.mpr ?_))
  -- The recast is followed through the steps: the capture given up, the streams taken off, each of
  -- them closed, the local effect reset.
  have second := first.trans (.arrange s fun x => { x with streams := [] })
  have order := app.arranged_perm v.app x.streams
  refine yields_bind.mpr (yields_get.mpr ?_)
  refine (Recasts.closeStreams quiet fun st member =>
    second.serves (serves _ (ofStream st (order.mem_iff.mp member)))).bind
      fun _ u ⟨third, shut⟩ => ?_
  have fourth := (second.trans third).trans (.modifyEffect x.localEffect (·.reset))
  refine yields_bind.mpr (yields_modifyEffect.mpr ?_)
  have last : u.rig.sessions[s]? = some x.emptied := by
    rw [(second.trans third).sessions, known]
    simp [Session.emptied]
  refine Yields.session last (yields_notice.mpr
    ⟨Recasts.record (fourth.congr (fun e z _ => ?_) fun t y _ => ?_) _, fun q member => ?_⟩)
  · simp only [Session.quiets, id, (order.map fun st => st.2.effect).mem_iff]
    by_cases former : e ∈ x.streams.map (·.2.effect)
    · simp only [former, if_true]
      split <;> rfl
    · simp only [former, if_false]
  · by_cases here : t = s
    · simp only [here, if_true, id, Session.emptied]
    · simp only [here, if_false, id]
  · obtain inUse | ofStream := List.mem_append.mp member
    · exact third.closed (closed q (Option.mem_toList.mp inUse))
    · obtain ⟨st, here, rfl⟩ := List.mem_map.mp ofStream
      exact shut st (order.mem_iff.mpr here)

/-- What becomes of the effects and of the sessions when a session is closed. -/
theorem Recasts.closeSession {s : SessionId} {x : Session} (known : w.rig.sessions[s]? = some x)
    (serves : ∀ q ∈ x.processors, w.rig.Serves q) :
    Yields (closeSession app (perform app (depth + 1)) s) w fun _ w' =>
      Recasts x.quiets (fun t y => if t = s then y.emptied else y) w w' ∧
        ∀ q ∈ x.processors, w'.rig.phase q = .closed := by
  refine Yields.session known (yields_bind.mpr (yields_modifySession.mpr ?_))
  have left : Recasts (fun _ => id) _ w (w.arrange s fun x => { x with capture := none }) :=
    .arrange s _
  dsimp only
  cases inUse : x.capture with
  | none => exact Recasts.drain quiet known serves (.of_rig rfl) (by simp [inUse])
  | some q =>
    have member : q ∈ x.processors := List.mem_append_left _ (by simp [inUse])
    refine (Spares.close quiet (left.serves (serves q member))).bind
      fun _ v ⟨spared, closed⟩ => ?_
    exact Recasts.drain quiet known serves spared (by simp [inUse, closed])

/-- A session that is in use is closed in full when it is asked to, and goes on to be in use. -/
theorem Recasts.perform_closeSession {s : SessionId} {x : Session}
    (known : w.rig.sessions[s]? = some x) (used : 0 < x.users)
    (serves : ∀ q ∈ x.processors, w.rig.Serves q) :
    Yields (perform app (depth + 2) (.closeSession s)) w fun _ w' =>
      Recasts x.quiets (fun t y => if t = s then y.emptied else y) w w' ∧
        ∀ q ∈ x.processors, w'.rig.phase q = .closed := by
  have begun : Recasts (fun _ => id) _ w (w.arrange s Session.more) := .arrange s Session.more
  refine yields_bind.mpr (yields_modifySession.mpr ?_)
  refine (Recasts.closeSession quiet (World.arrange_session known)
    fun q member => begun.serves (serves q member)).bind fun _ v ⟨cleared, shut⟩ => ?_
  have last : v.rig.sessions[s]? = some x.more.emptied := by
    rw [cleared.sessions, World.arrange_session known]
    simp
  have many : x.more.emptied.users ≠ 1 := Nat.ne_of_gt (Nat.succ_lt_succ used)
  have ended := (begun.trans cleared).trans
    (.arrange s fun y => { y with users := x.more.emptied.users - 1 })
  refine ⟨(), _, Run.bind_eq (releaseSession_eq last many _) _, ended.congr (fun _ _ _ => rfl)
    fun t y here => ?_, shut⟩
  by_cases same : t = s
  · obtain rfl := same
    obtain rfl := Option.some.inj (known.symm.trans here)
    simp [Session.emptied, Session.more]
  · simp [same]

end Closing

end Metering
