import Metering.Proofs.Holdings
import Metering.Proofs.Mirrored
/-!
New sessions in the place of old ones. A session that holds nothing does what a new one would do in
its place, with processors that no session has to do with yet. The new session has an effect of its
own for capture, so all effects that are made later have other names.
-/

namespace Metering

variable {S : Type}

namespace Session

variable {x : Session} {k : Ssrc}

theorem stream?_map {y : Session} {f : Stream → Stream}
    (streams : y.streams = x.streams.map fun st => (st.1, f st.2)) :
    y.stream? k = (x.stream? k).map f := by
  rw [stream?, stream?, streams]
  induction x.streams with
  | nil => rfl
  | cons st rest ih =>
    rw [List.map_cons, List.lookup_cons, List.lookup_cons]
    split
    · rfl
    · exact ih

theorem hasStream_map {y : Session} {f : Stream → Stream}
    (streams : y.streams = x.streams.map fun st => (st.1, f st.2)) :
    y.hasStream k = x.hasStream k := by
  simp only [hasStream, streams, List.any_map]
  rfl

end Session

/-- The processor is one of the rig that no session has to do with. Its chains hold neither the
effect of a session nor one that has still to be made. -/
structure Rig.Fresh (r : Rig) (e : EffectId) (y : Processor) : Prop where
  internal : y.isExternal = false
  subscribers : ∀ z ∈ y.subscribers, z.session? = none
  chains : ∀ t ∈ y.tracks, ∀ a, .effect a ∈ t.chain → a ≠ e ∧ a < r.effects.length

theorem Rig.fresh_new (r : Rig) (e : EffectId) (name : String) (tracks : List TrackPlan) :
    r.Fresh e (.new name tracks) where
  internal := rfl
  subscribers := nofun
  chains t member a inside := by
    obtain ⟨plan, -, rfl⟩ := List.mem_map.mp member
    cases inside

/-- A session is asked to do something, with processors of a kind only, or one of these is driven or
sent a frame. -/
def Deed.Engages (fresh : ProcessorId → Prop) (s : SessionId) : Deed → Prop
  | .process p _ _ | .configure p | .realize p | .start p | .stop p | .close p => fresh p
  | .connectCapture t p | .addStream t _ p => t = s ∧ fresh p
  | .setLocalListener t _ | .setStreamListener t _ | .removeStream t _ | .startSession t
  | .stopSession t | .closeSession t => t = s
  | _ => False

/-- A new session that is made in the place of an old one. -/
structure Renewal where
  old : SessionId
  new : SessionId
  /-- The effect of the old session for capture. -/
  ear : EffectId
  /-- The effect of the new session for capture, which is made after all others. -/
  next : EffectId
  made : ear < next
  /-- The processors that no session has to do with at first. -/
  fresh : ProcessorId → Prop

namespace Renewal

variable (g : Renewal)

/-- What stands for an effect when the new session is used. -/
def effect (e : EffectId) : EffectId :=
  if e = g.ear then g.next else if e < g.next then e else e + 1

def stream (st : Stream) : Stream := { st with effect := g.effect st.effect }

/-- The sessions hold the same, and only processors that are fresh at first. -/
structure Twin (x y : Session) : Prop where
  config : y.config = x.config
  streamListener : y.streamListener = x.streamListener
  capture : y.capture = x.capture
  captured : ∀ q ∈ x.capture, g.fresh q
  streams : y.streams = x.streams.map fun st => (st.1, g.stream st.2)
  streamed : ∀ st ∈ x.streams, g.fresh st.2.processor
  ear : x.localEffect = g.ear
  next : y.localEffect = g.next

variable {g}

theorem effect_ear : g.effect g.ear = g.next := if_pos rfl

theorem effect_old {e : EffectId} (other : e ≠ g.ear) (before : e < g.next) : g.effect e = e := by
  rw [effect, if_neg other, if_pos before]

theorem effect_later {e : EffectId} (later : g.next ≤ e) : g.effect e = e + 1 := by
  have other : e ≠ g.ear := fun same => absurd g.made (Nat.not_lt.mpr (same ▸ later))
  rw [effect, if_neg other, if_neg (Nat.not_lt.mpr later)]

theorem effect_inj {a b : EffectId} (same : g.effect a = g.effect b) : a = b := by
  -- What an effect in the second run stands for.
  let back (e : EffectId) : EffectId :=
    if e = g.next then g.ear else if e < g.next then e else e - 1
  have inverse (e : EffectId) : back (g.effect e) = e := by
    by_cases here : e = g.ear
    · rw [here, effect_ear]
      exact if_pos rfl
    · obtain before | later := Nat.lt_or_ge e g.next
      · rw [effect_old here before]
        exact (if_neg (Nat.ne_of_lt before)).trans (if_pos before)
      · rw [effect_later later]
        have beyond : g.next < e + 1 := Nat.lt_succ_of_le later
        exact (if_neg (Nat.ne_of_gt beyond)).trans (if_neg (Nat.lt_asymm beyond))
  rw [← inverse a, same, inverse b]

section Twin

variable {x y : Session} {k : Ssrc} {p : ProcessorId} {m m' : EffectId}

theorem Twin.removeStream (h : g.Twin x y) : g.Twin (x.removeStream k) (y.removeStream k) :=
  { h with
    streams := by
      simp only [Session.removeStream, h.streams, List.filter_map]
      rfl
    streamed := fun st member => h.streamed st (List.mem_of_mem_filter member) }

/-- A stream is added, whose effect is made after all others in both runs. -/
theorem Twin.addStream (h : g.Twin x y) (fresh : g.fresh p) (least : g.next ≤ m)
    (one : m' = m + 1) : g.Twin (x.addStream k ⟨p, m⟩) (y.addStream k ⟨p, m'⟩) :=
  { h with
    streams := by
      simp [Session.addStream, h.streams, stream, effect_later least, one]
    streamed := fun st member => by
      obtain before | last := List.mem_append.mp member
      · exact h.streamed st before
      · exact List.mem_singleton.mp last ▸ fresh }

end Twin

variable (g) in
/-- The second run uses the new session where the first one uses the old. -/
def mirror : Mirror where
  effect := g.effect
  session _ := g.new
  sees := g.fresh
  drives := g.fresh
  effects _ := True
  sessions t := t = g.old
  live t := t = g.old
  least := g.next
  similar _ x y := y.listener = x.listener ∧ y.calculator = x.calculator
  twin _ x y := g.Twin x y
  drives_sees := id
  live_sessions := id
  effect_inj _ _ := effect_inj
  session_inj a b _ := a.trans b.symm
  offered _ similar := similar
  config twin := twin.config
  capture twin := twin.capture
  localEffect twin := ⟨trivial, by rw [twin.ear, twin.next, effect_ear]⟩
  stream? twin _ := ⟨Session.stream?_map twin.streams, fun _ _ => trivial⟩
  uses _ twin := { twin with }
  occupies fresh twin := { twin with capture := rfl, captured := fresh }

section Worlds

variable {n : SessionId → Nat} {u v w : World S}

/-- There is one effect more in the second world. -/
theorem length (h : g.mirror.Reflects n u v) :
    v.rig.effects.length = u.rig.effects.length + 1 := by
  have least : g.next ≤ u.rig.effects.length := h.least
  have ends (e : EffectId) : u.rig.effects.length ≤ e ↔ v.rig.effects.length ≤ g.effect e := by
    rw [← List.getElem?_eq_none_iff, ← List.getElem?_eq_none_iff]
    obtain ⟨a, b, here, here', -⟩ | ⟨none, none'⟩ := Mirror.rel_cases (h.effects e trivial)
    · rw [here, show v.rig.effects[g.effect e]? = _ from here']
      exact iff_of_false nofun nofun
    · exact iff_of_true none none'
  refine Nat.le_antisymm ?_ (Nat.succ_le_of_lt (Nat.lt_of_not_le fun fewer => ?_))
  · exact effect_later least ▸ (ends _).mp (Nat.le_refl _)
  · -- The last effect of the first world has no counterpart otherwise.
    obtain all | more := Nat.eq_or_lt_of_le least
    · have beyond := (ends g.ear).mpr (effect_ear ▸ all ▸ fewer)
      exact Nat.not_lt.mpr beyond (all ▸ g.made)
    · have some : 0 < u.rig.effects.length := Nat.zero_lt_of_lt more
      have last := effect_later (Nat.le_sub_one_of_lt more)
      rw [Nat.sub_add_cancel some] at last
      have beyond := (ends (u.rig.effects.length - 1)).mpr (fewer.trans_eq last.symm)
      exact Nat.not_lt.mpr beyond (Nat.sub_one_lt_of_lt some)

/-- An effect is made in both worlds. -/
theorem fits (h : g.mirror.Reflects n u v) {a b : LevelEffect} (listener : b.listener = a.listener)
    (calculator : b.calculator = a.calculator) : g.mirror.Reflects n (u.fit a) (v.fit b) := by
  have least : g.next ≤ u.rig.effects.length := h.least
  refine { h with
    least := by
      change g.next ≤ (u.rig.effects ++ [a]).length
      exact Nat.le_trans least (by simp)
    effects := fun e _ => ?_ }
  change Option.Rel _ (u.rig.effects ++ [a])[e]? (v.rig.effects ++ [b])[g.effect e]?
  obtain before | last | beyond := Nat.lt_trichotomy e u.rig.effects.length
  · obtain ⟨x, y, here, here', similar⟩ | ⟨none, -⟩ := Mirror.rel_cases (h.effects e trivial)
    · have before' : g.effect e < v.rig.effects.length := (List.getElem?_eq_some_iff.mp here').1
      rw [List.getElem?_append_left before, List.getElem?_append_left before']
      exact h.effects e trivial
    · exact absurd before (Nat.not_lt.mpr (List.getElem?_eq_none_iff.mp none))
  · rw [effect_later (last ▸ least), last, ← length h]
    simpa using ⟨listener, calculator⟩
  · rw [effect_later (Nat.le_of_lt (Nat.lt_of_le_of_lt least beyond)),
      List.getElem?_eq_none (by simpa using Nat.succ_le_of_lt beyond),
      List.getElem?_eq_none (by simpa [length h] using Nat.succ_le_of_lt beyond)]
    exact .none

end Worlds

section Operations

variable {app : Application S} {again : {β : Type} → Call β → Run S β} {p : ProcessorId} {k : Ssrc}
variable {α : Type}

theorem session {f f' : Session → Run S α}
    (rest : ∀ x y, g.Twin x y → g.mirror.Echo (f x) (f' y)) :
    g.mirror.Echo (Run.session g.old >>= f) (Run.session g.new >>= f') :=
  Mirror.Echo.session (m := g.mirror) (s := g.old) rfl rest

theorem arrange {f f' : Session → Session} (same : ∀ x y, g.Twin x y → g.Twin (f x) (f' y))
    (users : ∀ x, (f x).users = x.users) (users' : ∀ y, (f' y).users = y.users) :
    g.mirror.Echo (Run.modifySession g.old f : Run S Unit) (Run.modifySession g.new f') :=
  Mirror.Echo.arrange (m := g.mirror) (s := g.old) rfl same users users'

theorem notice (a b : SessionNotice) :
    g.mirror.Echo (sessionNotice g.old a : Run S Unit) (sessionNotice g.new b) :=
  Mirror.Echo.sessionNotice (m := g.mirror) (s := g.old) rfl a b

theorem during {r r' : Run S α} (echo : g.mirror.Echo r r') :
    g.mirror.Echo (duringUse app again g.old r) (duringUse app again g.new r') :=
  Mirror.Echo.duringUse (m := g.mirror) (t := g.old) rfl rfl echo

theorem setListener (e : EffectId) (l : Option ListenerId) :
    g.mirror.Echo (setListener e l : Run S Unit) (setListener (g.effect e) l) :=
  Mirror.Echo.modifyEffect (m := g.mirror) (e := e) trivial fun _ _ similar =>
    ⟨rfl, congrArg Calculator.reset similar.2⟩

theorem resetEffect (e : EffectId) :
    g.mirror.Echo (resetEffect e : Run S Unit) (resetEffect (g.effect e)) :=
  Mirror.Echo.modifyEffect (m := g.mirror) (e := e) trivial fun _ _ similar =>
    ⟨similar.1, congrArg Calculator.reset similar.2⟩

theorem setLocalListener (l : Option ListenerId) :
    g.mirror.Echo (setLocalListener g.old l : Run S Unit) (setLocalListener g.new l) := by
  refine session fun x y twin => ?_
  rw [twin.ear, twin.next, ← effect_ear]
  exact setListener g.ear l

theorem setStreamListener (l : Option ListenerId) :
    g.mirror.Echo (setStreamListener g.old l : Run S Unit) (setStreamListener g.new l) := by
  refine .bind (arrange (fun _ _ twin => { twin with streamListener := rfl }) (fun _ => rfl)
    fun _ => rfl) fun _ => ?_
  refine session fun x y twin => ?_
  rw [twin.streams]
  exact .each fun st _ => setListener st.2.effect l

variable (echoes : g.mirror.Echoes S again) (quiet : app.Quiet)
include echoes quiet

theorem closeStream {st : Stream} (fresh : g.fresh st.processor) :
    g.mirror.Echo (closeStream app again st) (closeStream app again (g.stream st)) :=
  (Mirror.Echo.close echoes fresh quiet).bind fun _ =>
    (setListener st.effect none).bind fun _ => resetEffect st.effect

/-- A processor is taken in for a stream. If it is refused the stream is given up. -/
theorem takeStream (fresh : g.fresh p) :
    g.mirror.Echo (takeStream app again g.old k p) (takeStream app again g.new k p) :=
  Mirror.Echo.takeIn (s := g.old) (m := g.mirror) (z := .stream g.old k) echoes quiet rfl fresh rfl
    (Mirror.Echo.streamUpdate (s := g.old) echoes fresh rfl k .configured) _
    (fun _ _ twin => twin.removeStream) (fun _ => rfl) fun _ => rfl

theorem addStream (fresh : g.fresh p) :
    g.mirror.Echo (addStream app again g.old k p) (addStream app again g.new k p) := by
  intro n u v h
  refine h.session (s := g.old) rfl fun x y known known' twins => ?_
  have twin := twins.twin
  rw [Session.hasStream_map twin.streams]
  split
  · exact ⟨rfl, h⟩
  · have calculator : ((LevelEffect.new y.config.effect).setListener y.streamListener).calculator =
        ((LevelEffect.new x.config.effect).setListener x.streamListener).calculator := by
      rw [twin.config]
      rfl
    have begun := (fits h twin.streamListener calculator).arrange (s := g.old) rfl
      (f := (·.addStream k ⟨p, u.rig.effects.length⟩))
      (g := (·.addStream k ⟨p, v.rig.effects.length⟩))
      (fun _ _ twin => twin.addStream fresh h.least (length h)) (fun _ => rfl) fun _ => rfl
    exact takeStream echoes quiet fresh n _ _ begun

theorem removeStream : g.mirror.Echo (removeStream app again g.old k)
    (removeStream app again g.new k) := by
  refine session fun x y twin => ?_
  rw [Session.stream?_map twin.streams]
  cases found : x.stream? k with
  | none => exact .pure _
  | some st =>
    have fresh := twin.streamed _ (Session.mem_of_stream? found)
    refine .bind (arrange (fun _ _ twin => twin.removeStream) (fun _ => rfl) fun _ => rfl)
      fun _ => ?_
    exact (closeStream echoes quiet fresh).bind fun _ => (notice _ _).bind fun _ => .pure _

theorem drain (e : EffectId) (a b : SessionNotice) :
    g.mirror.Echo (drain app again g.old e a) (drain app again g.new (g.effect e) b) := by
  refine session fun x y twin => ?_
  refine .bind (arrange (fun _ _ twin => { twin with streams := rfl, streamed := nofun })
    (fun _ => rfl) fun _ => rfl) fun _ => ?_
  rw [twin.streams]
  refine .own fun u v same => ?_
  rw [← same, app.arranged_map]
  refine .bind (.each fun st member => closeStream echoes quiet
    (twin.streamed st ((app.arranged_perm u.app x.streams).mem_iff.mp member))) fun _ => ?_
  exact (resetEffect e).bind fun _ => notice a b

theorem closeSession :
    g.mirror.Echo (closeSession app again g.old) (closeSession app again g.new) := by
  refine session fun x y twin => ?_
  refine .bind (arrange (fun _ _ twin => { twin with capture := rfl, captured := nofun })
    (fun _ => rfl) fun _ => rfl) fun _ => ?_
  rw [twin.capture, twin.ear, twin.next, ← effect_ear]
  dsimp only
  cases inUse : x.capture with
  | none => exact drain echoes quiet g.ear _ _
  | some q =>
    have fresh := twin.captured q inUse
    exact (Mirror.Echo.close echoes fresh quiet).bind fun _ => drain echoes quiet g.ear _ _

omit echoes in
/-- Whatever the session is asked to do with processors that are fresh at first, and whatever these
are asked to do, it comes to the same in the new session. -/
theorem engages {β : Type} (depth : Nat) (c : Call β) (kind : c.deed.Engages g.fresh g.old) :
    g.mirror.Echo (perform app depth c) (perform app depth (c.rename g.mirror.session)) := by
  have hears : Mirror.Echo.Hears g.mirror := by
    rintro e x y b ⟨listener, calculator⟩
    simp only [LevelEffect.observe, LevelEffect.observeBy, listener, calculator]
    split
    · split
      · exact ⟨rfl, rfl, rfl⟩
      · exact ⟨rfl, listener, calculator⟩
    · exact ⟨rfl, listener, calculator⟩
  -- Whatever is not asked of the session itself is played in both worlds alike.
  have plays (here : c.deed.Plays g.fresh g.fresh (· = g.old)) :
      g.mirror.Echo (perform app depth c) (perform app depth (c.rename g.mirror.session)) :=
    Mirror.Echo.plays quiet hears (fun _ _ _ _ r twin inUse => twin.captured r inUse) depth c here
  cases depth with
  | zero => exact .throw _
  | succ depth =>
    have echoes := g.mirror.echoes quiet depth (S := S)
    cases c with
    | setLocalListener t l =>
      obtain rfl : t = g.old := kind
      exact setLocalListener l
    | setStreamListener t l =>
      obtain rfl : t = g.old := kind
      exact setStreamListener l
    | connectCapture t p =>
      obtain ⟨rfl, fresh⟩ : t = g.old ∧ g.fresh p := kind
      exact during (Mirror.Echo.connectCapture (s := g.old) echoes quiet rfl fresh
        fun _ _ r twin inUse => twin.captured r inUse)
    | addStream t k p =>
      obtain ⟨rfl, fresh⟩ : t = g.old ∧ g.fresh p := kind
      exact during (addStream echoes quiet fresh)
    | removeStream t k =>
      obtain rfl : t = g.old := kind
      exact during (removeStream echoes quiet)
    | closeSession t =>
      obtain rfl : t = g.old := kind
      exact during (closeSession echoes quiet)
    | process | configure | realize | start | stop | close | startSession | stopSession =>
      exact plays kind
    | _ => exact kind.elim

end Operations

end Renewal

section Beginning

variable {app : Application S} {w : World S} {s : SessionId} {x : Session} {z : LevelEffect}
variable {label : String} {device : Device} {l k : Option ListenerId}

/-- A session is made, and listeners are registered for both sides of it. -/
def renew (app : Application S) (depth : Nat) (label : String) (device : Device)
    (config : SessionConfig) (l k : Option ListenerId) : Run S Unit := do
  let t ← perform app depth (.newSession label device config)
  perform app depth (.setLocalListener t l)
  perform app depth (.setStreamListener t k)

/-- The world with one session more, which has listeners for both sides. -/
def World.renewed (w : World S) (label : String) (device : Device) (config : SessionConfig)
    (l k : Option ListenerId) : World S :=
  let x : Session := { label, device, config, localEffect := w.rig.effects.length }
  { w with rig := { w.rig with
    effects := w.rig.effects ++ [(LevelEffect.new config.effect).setListener l]
    sessions := w.rig.sessions ++ [{ x with streamListener := k }] } }

theorem modify_concat {α : Type} (f : α → α) (as : List α) (a : α) :
    (as ++ [a]).modify as.length f = as ++ [f a] := by
  induction as with
  | nil => rfl
  | cons b as ih => rw [List.cons_append, List.length_cons, List.modify_succ_cons, ih]; rfl

theorem renew_eq (depth : Nat) (config : SessionConfig) :
    renew app (depth + 1) label device config l k w =
      .ok ((), w.renewed label device config l k) := by
  let e := LevelEffect.new config.effect
  let x : Session := { label, device, config, localEffect := w.rig.effects.length }
  let v : World S := { w with rig := { w.rig with
    effects := w.rig.effects ++ [e], sessions := w.rig.sessions ++ [x] } }
  let u : World S := { w with rig := { w.rig with
    effects := w.rig.effects ++ [e.setListener l], sessions := w.rig.sessions ++ [x] } }
  have local_listener : perform app (depth + 1) (.setLocalListener w.rig.sessions.length l) v =
      .ok ((), u) := by
    refine (Run.bind_eq (Run.session_eq (x := x) List.getElem?_concat_length) _).trans ?_
    have set : setListener w.rig.effects.length l v = .ok ((), { v with rig := { v.rig with
        effects := v.rig.effects.modify w.rig.effects.length (·.setListener l) } }) := rfl
    refine set.trans ?_
    rw [show v.rig.effects = w.rig.effects ++ [e] from rfl, modify_concat]
  have stream_listener : perform app (depth + 1) (.setStreamListener w.rig.sessions.length k) u =
      .ok ((), w.renewed label device config l k) := by
    have stored : u.arrange w.rig.sessions.length (fun x => { x with streamListener := k }) =
        w.renewed label device config l k := by
      rw [World.arrange, show u.rig.sessions = w.rig.sessions ++ [x] from rfl, modify_concat]
      rfl
    refine (Run.bind_eq (m := Run.modifySession _ _) rfl _).trans ?_
    refine (congrArg _ stored).trans ?_
    exact (Run.bind_eq (Run.session_eq List.getElem?_concat_length) _).trans rfl
  have makes : perform app (depth + 1) (.newSession label device config) w =
      .ok (w.rig.sessions.length, v) := rfl
  refine (Run.bind_eq makes _).trans ?_
  exact (Run.bind_eq local_listener _).trans stream_listener

/-- A new session in the place of one that is there. -/
def World.renewal (w : World S) (s : SessionId) (x : Session)
    (made : x.localEffect < w.rig.effects.length) (fresh : ProcessorId → Prop) : Renewal where
  old := s
  new := w.rig.sessions.length
  ear := x.localEffect
  next := w.rig.effects.length
  made := made
  fresh := fresh

/-- A processor that no session has to do with looks the same in both runs. -/
theorem Renewal.image_fresh {fresh : ProcessorId → Prop} {y : Processor}
    {made : x.localEffect < w.rig.effects.length} (h : w.rig.Fresh x.localEffect y) :
    (w.renewal s x made fresh).mirror.image y = y := by
  have subscribers : y.subscribers.map (w.renewal s x made fresh).mirror.subscriber =
      y.subscribers := by
    refine (List.map_congr_left fun z member => ?_).trans (List.map_id' _)
    have nobody := h.subscribers z member
    cases z with
    | watcher => rfl
    | capture | stream => cases nobody
  have tracks : y.tracks.map (w.renewal s x made fresh).mirror.track = y.tracks := by
    refine (List.map_congr_left fun t member => ?_).trans (List.map_id' _)
    have chain : t.chain.map (w.renewal s x made fresh).mirror.plugIn = t.chain := by
      refine (List.map_congr_left fun z inside => ?_).trans (List.map_id' _)
      cases z with
      | codec => rfl
      | effect e =>
        obtain ⟨other, before⟩ := h.chains t member e inside
        exact congrArg PlugIn.effect (effect_old other before)
    rw [Mirror.track, chain]
  rw [Mirror.image, subscribers, tracks]

/-- When a new session is made in the place of one that holds nothing, it has the same to begin
with. -/
theorem Renewal.begins {fresh : ProcessorId → Prop} (known : w.rig.sessions[s]? = some x)
    (used : 0 < x.users) (free : x.capture = none) (empty : x.streams = [])
    (made : x.localEffect < w.rig.effects.length) (ear : w.rig.effects[x.localEffect]? = some z)
    (silent : z.calculator = { config := x.config.effect })
    (unused : ∀ q, fresh q → ∀ y, w.rig.processors[q]? = some y → w.rig.Fresh x.localEffect y) :
    (w.renewal s x made fresh).mirror.Reflects (fun _ => 0) w
      (w.renewed label device x.config z.listener x.streamListener) where
  app := rfl
  journal := rfl
  processors q isFresh := by
    change w.rig.processors[q]? = _
    cases here : w.rig.processors[q]? with
    | none => rfl
    | some y => exact congrArg some (image_fresh (unused q isFresh y here)).symm
  covers q y isFresh here := by
    refine ⟨fun _ _ _ _ => trivial, fun z member => ?_⟩
    have nobody := (unused q isFresh y here).subscribers z member
    cases z with
    | watcher => trivial
    | capture | stream => cases nobody
  internal q y isFresh here := (unused q isFresh y here).internal
  least := Nat.le_refl _
  effects e _ := by
    change Option.Rel _ w.rig.effects[e]?
      (w.rig.effects ++ [_])[(w.renewal s x made fresh).effect e]?
    -- The new local effect is the last one in the second world. The others keep their place, and
    -- the places beyond the end move on by one.
    by_cases here : e = x.localEffect
    · rw [here, show (w.renewal s x made fresh).effect x.localEffect = w.rig.effects.length from
        effect_ear, List.getElem?_concat_length, ear]
      refine .some ⟨rfl, ?_⟩
      rw [silent]
      rfl
    · obtain before | later := Nat.lt_or_ge e w.rig.effects.length
      · rw [show (w.renewal s x made fresh).effect e = e from effect_old here before,
          List.getElem?_append_left before]
        cases w.rig.effects[e]? with
        | none => exact .none
        | some z => exact .some ⟨rfl, rfl⟩
      · rw [show (w.renewal s x made fresh).effect e = e + 1 from effect_later later,
          List.getElem?_eq_none later, List.getElem?_eq_none (by simpa using later)]
        exact .none
  sessions t here := by
    obtain rfl : t = s := here
    change Option.Rel _ _ (w.rig.sessions ++ [_])[w.rig.sessions.length]?
    rw [known, List.getElem?_concat_length]
    refine .some ⟨⟨rfl, rfl, free.symm, ?_, ?_, ?_, rfl, rfl⟩, .inr ⟨used, Nat.zero_lt_one⟩⟩
    · simp [free]
    · simp [empty]
    · simp [empty]

end Beginning

end Metering
