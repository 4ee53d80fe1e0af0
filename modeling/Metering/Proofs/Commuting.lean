import Metering.Proofs.Registering
import Metering.Proofs.Using
/-!
It makes no difference when a listener is registered. Before or after a session is asked to connect
a processor, to add or remove a stream, to start, to stop or to close, the registration leads to
the same.
-/

namespace Metering

variable {S α : Type}

/-- A session is asked to do something with processors. -/
def Deed.Operates (s : SessionId) : Deed → Prop
  | .connectCapture t _ | .addStream t _ _ | .removeStream t _ | .startSession t | .stopSession t
  | .closeSession t => t = s
  | _ => False

/-- The processors that a session has to do with when it is asked to do something. -/
def Session.Handles (x : Session) (d : Deed) (q : ProcessorId) : Prop :=
  q ∈ d.passed ∨ q ∈ x.capture ∨ ∃ st ∈ x.streams, st.2.processor = q

/-- The operation is answered, and then a listener is registered. -/
def registeredAfter (app : Application S) (depth : Nat) (side : Side) (s : SessionId)
    (l : Option ListenerId) (op : Call α) : Run S α := do
  let r ← perform app depth op
  perform app depth (side.register s l)
  return r

/-- A listener is registered, and then the operation is answered. -/
def registeredBefore (app : Application S) (depth : Nat) (side : Side) (s : SessionId)
    (l : Option ListenerId) (op : Call α) : Run S α := do
  perform app depth (side.register s l)
  perform app depth op

/-- The worlds are the same, and so they are after frames have been sent, some of the processors
have been driven, and the session has been started and stopped. The application is called for the
same things. -/
structure World.Interchangeable (app : Application S) (drives : ProcessorId → Prop) (s : SessionId)
    (u v : World S) : Prop where
  same : u.Same v
  later : ∀ {γ : Type} (later : Program S γ),
    later.Makes (Deed.Plays (fun _ => True) drives fun t => t = s) →
    ∀ depth, Alike World.Same (later.run (perform app depth) u) (later.run (perform app depth) v)

/-- A processor of the rig that cannot be configured any more is left as it is. -/
theorem beginConfiguration_refused {app : Application S} {again : {β : Type} → Call β → Run S β}
    {w : World S} {p : ProcessorId}
    (internal : ∀ y, w.rig.processors[p]? = some y → y.isExternal = false) (body : Run S Unit) :
    Ensures (beginConfiguration app again p body) w fun r w' => ∀ f, r = .error f → w' = w := by
  refine ensures_bind.mpr (ensures_processor.mpr fun y known => ?_)
  split
  case h_1 fresh =>
    refine Ensures.processor_of known ?_
    simp only [internal y known, Bool.false_eq_true, if_false, fresh]
    -- A processor that has not begun its life is never refused.
    exact ensures_bind.mpr fun _ _ _ => ensures_bind.mpr fun _ _ _ => ensures_bind.mpr
      fun _ _ _ => ensures_bind.mpr fun _ _ _ => ensures_pure.mpr nofun
  case h_2 => exact ensures_pure.mpr nofun
  case h_3 => exact ensures_bind.mpr fun _ _ _ => ensures_pure.mpr nofun
  case h_4 => exact ensures_pure.mpr fun _ _ => rfl

/-- A stream whose name is taken is not added. -/
theorem addStream_present {app : Application S} {again : {β : Type} → Call β → Run S β}
    {w : World S} {s : SessionId} {x : Session} {k : Ssrc} {p : ProcessorId}
    (found : w.rig.sessions[s]? = some x) (present : x.hasStream k = true) :
    addStream app again s k p w = .ok (.error (.invalidState
      ("receive stream " ++ toString k ++ " already added")), w) := by
  refine (Run.bind_eq (Run.session_eq found) _).trans ?_
  simp only [present]
  rfl

namespace Registration

variable {g : Registration} {all ears : EffectId → Prop} {x₀ x : Session} {n : SessionId → Nat}
variable {u v w : World S}

section Operations

variable {app : Application S} {again : {β : Type} → Call β → Run S β} {p : ProcessorId}

/-- A run leads to worlds of which one is still behind by the registration. -/
def Trails (g : Registration) (n : SessionId → Nat) (u v : World S) : Prop :=
  ∃ all x₀, (g.mirror all (· ∈ x₀.ears g.side) x₀).Reflects n u v

theorem trails_of_alike {β : Type} {x y : Except Halt (β × World S)}
    (h : Alike ((g.mirror all (· ∈ x₀.ears g.side) x₀).Reflects n) x y) :
    Alike (g.Trails n) x y := h.mono fun _ _ h => ⟨_, _, h⟩

variable (echoes : ∀ m : Mirror, m.Echoes S again) (quiet : app.Quiet)
include echoes quiet

/-- The session connects a processor, starts or stops the one in use. -/
theorem connectCapture (driven : g.driven p)
    (h : (g.mirror all (· ∈ x₀.ears g.side) x₀).Reflects n u v) :
    Alike (g.Trails n) (connectCapture app again g.session p u)
      (connectCapture app again g.session p v) :=
  trails_of_alike <| Mirror.Echo.connectCapture (s := g.session) (echoes _) quiet trivial driven
    (fun _ _ r twin inUse => (twin.2.2 rfl).capture r inUse) n u v h

theorem startSession (h : (g.mirror all (· ∈ x₀.ears g.side) x₀).Reflects n u v) :
    Alike (g.Trails n) (startSession app again g.session u)
      (startSession app again g.session v) :=
  trails_of_alike <| Mirror.Echo.startSession (s := g.session) (echoes _) quiet trivial
    (fun _ _ r twin inUse => (twin.2.2 rfl).capture r inUse) n u v h

theorem stopSession (h : (g.mirror all (· ∈ x₀.ears g.side) x₀).Reflects n u v) :
    Alike (g.Trails n) (stopSession app again g.session u)
      (stopSession app again g.session v) :=
  trails_of_alike <| Mirror.Echo.stopSession (s := g.session) (echoes _) quiet trivial
    (fun _ _ r twin inUse => (twin.2.2 rfl).capture r inUse) n u v h

omit echoes quiet in
/-- The session gives streams away. -/
theorem giveAway {x₁ : Session} {f : Session → Session}
    (h : (g.mirror all ears x₀).Reflects n u v) (users : ∀ x, (f x).users = x.users)
    (commutes : ∀ x k, f { x with streamListener := k } = { f x with streamListener := k })
    (gives : ∀ x, g.Holds x₀ x → g.Holds x₁ (f x)) (fewer : ∀ x, (f x).effects ⊆ x.effects) :
    (g.mirror all ears x₁).Reflects n (u.arrange g.session f) (v.arrange g.session f) :=
  Reflects.change h (fun q y here => (h.covers q y trivial here).chains) h.effects <|
    Reflects.arranged h users commutes
      (fun x held within => ⟨gives x held, fun e member => within e (fewer x member)⟩)
      fun _ _ _ _ => id

/-- The effect of a stream falls silent, before or after the registration. -/
theorem closeStream {st : Stream} (driven : g.driven st.processor)
    (h : (g.mirror all ears x₀).Reflects n u v) :
    Alike ((g.mirror all (fun e => ears e ∧ e ≠ st.effect) x₀).Reflects n)
      (closeStream app again st u) (closeStream app again st v) := by
  refine Alike.bind (Mirror.Echo.close (echoes _) driven quiet n u v h) fun _ u v h => ?_
  have silent (l : List LevelEffect) (e : EffectId) :
      ((l.modify st.effect (·.setListener none)).modify st.effect (·.reset))[e]? =
        (l[e]?).map fun z => if st.effect = e then (z.setListener none).reset else z := by
    simp only [List.getElem?_modify]
    cases l[e]? with
    | none => rfl
    | some z => by_cases here : st.effect = e <;> simp [here]
  have next : (g.mirror all (fun e => ears e ∧ e ≠ st.effect) x₀).Reflects n
      { u with rig := { u.rig with
        effects := (u.rig.effects.modify st.effect (·.setListener none)).modify st.effect
          (·.reset) } }
      { v with rig := { v.rig with
        effects := (v.rig.effects.modify st.effect (·.setListener none)).modify st.effect
          (·.reset) } } :=
    Reflects.change h (fun q y here => (h.covers q y trivial here).chains) (fun e inside => ?_)
      fun t => Mirror.rel_mono (h.sessions t trivial) fun _ _ _ twins => ⟨twins.twin, twins.users⟩
  -- What is left is the effect that falls silent. Afterwards it is the same in both worlds.
  · exact ⟨rfl, next⟩
  rw [silent, silent]
  obtain ⟨a, b, here, here', ear, deaf⟩ | ⟨none, none'⟩ := Mirror.rel_cases (h.effects e inside)
  · rw [here, show v.rig.effects[e]? = _ from here']
    refine .some ?_
    by_cases same : st.effect = e
    · simp only [same, if_true]
      have silenced : (b.setListener none).reset = (a.setListener none).reset := by
        by_cases was : ears e
        · rw [ear was]
          rfl
        · rw [deaf was]
      exact ⟨fun ear' => (ear'.2 rfl).elim, fun _ => silenced⟩
    · simp only [same, if_false]
      exact ⟨fun ear' => ear ear'.1, fun deaf' => deaf fun was => deaf' ⟨was, Ne.symm same⟩⟩
  · rw [none, show v.rig.effects[e]? = _ from none']
    exact .none

theorem closeStreams {streams : List (Ssrc × Stream)}
    (driven : ∀ st ∈ streams, g.driven st.2.processor)
    (h : (g.mirror all ears x₀).Reflects n u v) :
    Alike ((g.mirror all (fun e => ears e ∧ e ∉ streams.map (·.2.effect)) x₀).Reflects n)
      (Run.each (fun st => Metering.closeStream app again st.2) streams u)
      (Run.each (fun st => Metering.closeStream app again st.2) streams v) := by
  induction streams generalizing ears u v with
  | nil => exact ⟨rfl, Reflects.congr h fun e => by simp⟩
  | cons st streams ih =>
    refine (closeStream echoes quiet (driven st List.mem_cons_self) h).bind fun _ u v h => ?_
    refine (ih (fun st' member => driven st' (List.mem_cons_of_mem _ member)) h).mono ?_
    exact fun _ _ h => Reflects.congr h fun e => by simp [and_assoc]

section Adding

variable {k : Ssrc} {e : EffectId}

omit echoes quiet in
theorem Reflects.length (h : (g.mirror (fun _ => True) ears x₀).Reflects n u v) :
    v.rig.effects.length = u.rig.effects.length := by
  have ends (e : EffectId) : u.rig.effects.length ≤ e ↔ v.rig.effects.length ≤ e := by
    rw [← List.getElem?_eq_none_iff, ← List.getElem?_eq_none_iff]
    obtain ⟨a, b, here, here', -⟩ | ⟨none, none'⟩ := Mirror.rel_cases (h.effects e trivial)
    · rw [here, show v.rig.effects[e]? = _ from here']
      exact iff_of_false nofun nofun
    · exact iff_of_true none none'
  exact Nat.le_antisymm ((ends _).mp (Nat.le_refl _)) ((ends _).mpr (Nat.le_refl _))

omit echoes quiet in
/-- The session has got a stream, whose effect has just been made. -/
theorem begun (h : (g.mirror (fun _ => True) (· ∈ x₀.ears g.side) x₀).Reflects n u v)
    (made : ∀ e ∈ x₀.effects, e < u.rig.effects.length) {x₁ : Session}
    (stream : x₁ = x₀.addStream k ⟨p, u.rig.effects.length⟩) :
    (g.mirror (fun _ => True) (· ∈ x₁.ears g.side) x₁).Reflects n
      ((u.fit ((LevelEffect.new x.config.effect).setListener x.streamListener)).arrange g.session
        fun x => x.addStream k ⟨p, u.rig.effects.length⟩)
      ((v.fit ((LevelEffect.new (g.other g.session x).config.effect).setListener
        (g.other g.session x).streamListener)).arrange g.session
          fun x => x.addStream k ⟨p, u.rig.effects.length⟩) := by
  subst stream
  set m := u.rig.effects.length with last
  have next : (g.mirror (fun _ => True) (· ∈ (x₀.addStream k ⟨p, m⟩).ears g.side)
      (x₀.addStream k ⟨p, m⟩)).Reflects n
      { u with rig := { u.rig with
        effects := u.rig.effects ++
          [(LevelEffect.new x.config.effect).setListener x.streamListener]
        sessions := u.rig.sessions.modify g.session (·.addStream k ⟨p, m⟩) } }
      { v with rig := { v.rig with
        effects := v.rig.effects ++
          [(LevelEffect.new (g.other g.session x).config.effect).setListener
            (g.other g.session x).streamListener]
        sessions := v.rig.sessions.modify g.session (·.addStream k ⟨p, m⟩) } } :=
    Reflects.change h (fun _ _ _ _ _ _ _ => trivial) (fun e _ => ?_) fun t => ?_
  · exact next
  -- An effect that was there is heard as before. The new one holds the listener of the streams,
  -- which is the same in both worlds unless the registration is for that side.
  · by_cases before : e < m
    · rw [List.getElem?_append_left before,
        List.getElem?_append_left (before.trans_eq (Reflects.length h).symm)]
      refine Mirror.rel_mono (h.effects e trivial) ?_
      rintro z z' - ⟨ear, deaf⟩
      have same : e ∈ (x₀.addStream k ⟨p, m⟩).ears g.side ↔ e ∈ x₀.ears g.side :=
        Session.ears_addStream (Nat.ne_of_lt before) g.side
      exact ⟨fun here => ear (same.mp here), fun here => deaf fun was => here (same.mpr was)⟩
    · rw [List.getElem?_append_right (Nat.le_of_not_lt before),
        List.getElem?_append_right (Reflects.length h ▸ Nat.le_of_not_lt before),
        Reflects.length h, ← last]
      by_cases now : e = m
      · subst now
        simp only [Nat.sub_self, List.getElem?_cons_zero, other, if_true, Session.hearing_config]
        refine .some ?_
        cases side : g.side with
        | capture =>
          refine ⟨fun here => ?_, fun _ => rfl⟩
          have old : m = x₀.localEffect := by simpa [Session.ears, Session.addStream] using here
          exact absurd (made _ List.mem_cons_self) (old ▸ Nat.lt_irrefl _)
        | stream =>
          refine ⟨fun _ => rfl, fun deaf => (deaf ?_).elim⟩
          simp [Session.ears, Session.addStream]
      · have after : 1 ≤ e - m :=
          Nat.sub_pos_of_lt (Nat.lt_of_le_of_ne (Nat.le_of_not_lt before) (Ne.symm now))
        rw [List.getElem?_eq_none after, List.getElem?_eq_none after]
        exact .none
  · refine Reflects.arranged (f := fun x => x.addStream k ⟨p, m⟩) h (fun _ => rfl)
      (fun _ _ => rfl) (fun y held _ => ⟨?_, fun _ _ => trivial⟩) (fun _ _ _ _ _ _ _ => trivial) t
    exact ⟨held.localEffect, by simp only [Session.addStream, held.streams], held.capture⟩

omit echoes quiet in
/-- The stream has been refused, and nobody has to do with the effect that was made for it. -/
theorem refused {m : EffectId} {x₁ : Session} (stream : x₁ = x₀.addStream k ⟨p, m⟩)
    (absent : x₀.hasStream k = false) (fresh : m ∉ x₀.effects)
    (chains : ∀ (q : ProcessorId) (y : Processor), u.rig.processors[q]? = some y → ∀ t ∈ y.tracks,
      ∀ e, .effect e ∈ t.chain → e ≠ m)
    (others : ∀ t x, u.rig.sessions[t]? = some x → t ≠ g.session → m ∉ x.effects)
    (h : (g.mirror (fun _ => True) (· ∈ x₁.ears g.side) x₁).Reflects n u v) :
    (g.mirror (· ≠ m) (· ∈ x₀.ears g.side) x₀).Reflects n
      (u.arrange g.session fun x => x.removeStream k)
      (v.arrange g.session fun x => x.removeStream k) := by
  subst stream
  have gone := Session.removeStream_addStream absent ⟨p, m⟩
  refine Reflects.change h chains (fun e other => ?_) <|
    Reflects.arranged (f := fun x => x.removeStream k) h (fun _ => rfl) (fun _ _ => rfl)
      (fun y held _ => ?_) fun t y known apart _ e member same =>
        others t y known apart (same ▸ member)
  · refine Mirror.rel_mono (h.effects e trivial) ?_
    rintro z z' - ⟨ear, deaf⟩
    have same : e ∈ (x₀.addStream k ⟨p, m⟩).ears g.side ↔ e ∈ x₀.ears g.side :=
      Session.ears_addStream other g.side
    exact ⟨fun here => ear (same.mpr here), fun here => deaf fun was => here (same.mp was)⟩
  · have streams : (y.removeStream k).streams = x₀.streams := by
      rw [← congrArg Session.streams gone]
      simp only [Session.removeStream, held.streams]
    refine ⟨⟨held.localEffect, streams, held.capture⟩, fun e member same => fresh ?_⟩
    have within : (y.removeStream k).effects = x₀.effects := by
      rw [Session.effects, Session.effects, streams]
      exact congrArg (· :: _) held.localEffect
    exact same ▸ within ▸ member

/-- A processor is taken in for a stream. If it is refused the session is as before. -/
theorem takeStream (driven : g.driven p) {m : EffectId} {x₁ : Session}
    (stream : x₁ = x₀.addStream k ⟨p, m⟩) (absent : x₀.hasStream k = false)
    (fresh : m ∉ x₀.effects)
    (chains : ∀ (q : ProcessorId) (y : Processor), u.rig.processors[q]? = some y → ∀ t ∈ y.tracks,
      ∀ e, .effect e ∈ t.chain → e ≠ m)
    (others : ∀ t x, u.rig.sessions[t]? = some x → t ≠ g.session → m ∉ x.effects)
    (h : (g.mirror (fun _ => True) (· ∈ x₁.ears g.side) x₁).Reflects n u v) :
    Alike (g.Trails n) (takeStream app again g.session k p u)
      (takeStream app again g.session k p v) := by
  have subscribed : Ensures (subscribe p (.stream g.session k)) u fun _ u' =>
      u' = u.subscribe p (.stream g.session k) := ensures_subscribe.mpr fun _ _ => rfl
  have subscribes := Mirror.Echo.subscribe (S := S)
    (m := g.mirror (fun _ => True) (· ∈ x₁.ears g.side) x₁) (q := p) (z := .stream g.session k)
    driven trivial n u v h
  refine Alike.bind_of subscribes subscribed fun _ u' v' h here => ?_
  subst here
  -- To subscribe changes no chain, so that the effect of the stream stands in none of them still.
  have took (q : ProcessorId) (y : Processor) (known : (u.subscribe p
      (.stream g.session k)).rig.processors[q]? = some y) : ∀ t ∈ y.tracks, ∀ e,
      .effect e ∈ t.chain → e ≠ m := by
    simp only [World.subscribe, World.record_rig, World.modify_processors,
      List.getElem?_modify] at known
    obtain ⟨z, before, rfl⟩ := Option.map_eq_some_iff.mp known
    have was := chains q z before
    split
    · exact was
    · exact was
  have updates : (g.mirror (fun _ => True) (· ∈ x₁.ears g.side) x₁).Echo
      (streamUpdate app again g.session k p .configured)
      (streamUpdate app again g.session k p .configured) :=
    Mirror.Echo.streamUpdate (s := g.session) (echoes _) driven trivial k .configured
  have begins := Mirror.Echo.beginConfiguration (echoes _) driven quiet updates n _ _ h
  refine Alike.bind_of begins (beginConfiguration_refused (fun y => h.internal p y driven) _)
    fun r u' v' h same => ?_
  cases r with
  | ok => exact ⟨rfl, _, _, h⟩
  | error f =>
    obtain rfl := same f rfl
    have told := Mirror.Echo.sessionNotice (S := S) (s := g.session)
      (m := g.mirror (fun _ => True) (· ∈ x₁.ears g.side) x₁) trivial (.streamNotConfigured k f)
      (.streamNotConfigured k f) n _ _ h
    refine Alike.bind_of told (P := fun _ w => w.rig = (u.subscribe p (.stream g.session k)).rig)
      (ensures_sessionNotice.mpr fun _ _ => rfl) fun _ u' v' h same => ?_
    exact ⟨rfl, _, x₀, refused stream absent fresh (same ▸ took) (same ▸ others) h⟩

theorem addStream (driven : g.driven p) (proper : u.rig.Proper) (backed : u.rig.Backed)
    (found : u.rig.sessions[g.session]? = some x)
    (h : (g.mirror (fun _ => True) (· ∈ x₀.ears g.side) x₀).Reflects n u v) :
    Alike (g.Trails n) (addStream app again g.session k p u)
      (addStream app again g.session k p v) := by
  obtain ⟨y, found', twins⟩ := h.known (s := g.session) trivial found
  obtain ⟨rfl, within, holds⟩ := twins.twin
  replace found' : v.rig.sessions[g.session]? = some (g.other g.session x) := found'
  have holds := holds rfl
  have present : (g.other g.session x).hasStream k = x.hasStream k := by
    simp only [other, if_true, Session.hasStream, Session.hearing_streams]
  cases has : x.hasStream k with
  | true =>
    rw [addStream_present found has, addStream_present found' (present.trans has)]
    exact ⟨rfl, _, _, h⟩
  | false =>
    have absent : x₀.hasStream k = false := by
      rwa [Session.hasStream, ← holds.streams]
    have same : x.effects = x₀.effects := by
      rw [Session.effects, Session.effects, holds.streams, holds.localEffect]
    have made (e : EffectId) (member : e ∈ x₀.effects) : e < u.rig.effects.length :=
      (proper g.session x found).lt (same ▸ member)
    rw [addStream_absent found has, addStream_absent found' (present.trans has),
      Reflects.length h]
    refine takeStream echoes quiet driven rfl absent (fun member => ?_)
      (fun q y known t track e member =>
        Nat.ne_of_lt (backed y (List.mem_of_getElem? known) t track _ member))
      (fun t y known apart member => ?_) (begun (k := k) (p := p) h made rfl (x := x))
    · exact Nat.lt_irrefl _ (made _ member)
    · simp only [World.arrange, World.fit, List.getElem?_modify, Ne.symm apart, if_false,
        id_map'] at known
      exact Nat.lt_irrefl _ ((proper t y known).lt member)

end Adding

variable (distinct : x₀.effects.Nodup)
include distinct

theorem removeStream {k : Ssrc} (named : (x₀.streams.map (·.1)).Nodup)
    (driven : ∀ st ∈ x₀.streams, g.driven st.2.processor)
    (h : (g.mirror all (· ∈ x₀.ears g.side) x₀).Reflects n u v) :
    Alike (g.Trails n) (removeStream app again g.session k u)
      (removeStream app again g.session k v) := by
  refine h.session (s := g.session) trivial fun x y known known' twins => ?_
  have holds := twins.twin.2.2 rfl
  have same : y.stream? k = x₀.stream? k := by
    rw [twins.twin.1, other, if_pos rfl, Session.stream?, Session.hearing_streams, holds.streams]
    rfl
  rw [same, show x.stream? k = x₀.stream? k by rw [Session.stream?, holds.streams]; rfl]
  cases found : x₀.stream? k with
  | none => exact ⟨rfl, all, x₀, h⟩
  | some st =>
    have given : (g.mirror all (· ∈ x₀.ears g.side) (x₀.removeStream k)).Reflects n
        (u.arrange g.session (·.removeStream k)) (v.arrange g.session (·.removeStream k)) :=
      giveAway h (fun _ => rfl) (fun _ _ => rfl)
        (fun x held => ⟨held.localEffect, by simp only [Session.removeStream, held.streams],
          held.capture⟩)
        fun x => ((List.filter_sublist.map _).cons_cons _).subset
    refine Alike.bind ⟨rfl, given⟩ fun _ u v h => ?_
    refine (closeStream echoes quiet (driven _ (Session.mem_of_stream? found)) h).bind
      fun _ u v h => ?_
    have kept : (g.mirror all (· ∈ (x₀.removeStream k).ears g.side) (x₀.removeStream k)).Reflects
        n u v := Reflects.congr h fun _ => Session.ears_removeStream distinct named found g.side
    exact (Mirror.Echo.sessionNotice (s := g.session) trivial _ _ n u v kept).bind
      fun _ _ _ h => ⟨rfl, all, _, h⟩

theorem drain (driven : ∀ st ∈ x₀.streams, g.driven st.2.processor) (a b : SessionNotice)
    (h : (g.mirror all (· ∈ x₀.ears g.side) x₀).Reflects n u v) :
    Alike (g.Trails n) (drain app again g.session x₀.localEffect a u)
      (drain app again g.session x₀.localEffect b v) := by
  refine h.session (s := g.session) trivial fun x y _ _ twins => ?_
  obtain ⟨rfl, within, holds⟩ := twins.twin
  have holds := holds rfl
  have same : (g.other g.session x).streams = x₀.streams := by
    rw [other, if_pos rfl, Session.hearing_streams, holds.streams]
  rw [same, holds.streams]
  have given : (g.mirror all (· ∈ x₀.ears g.side) { x₀ with streams := [] }).Reflects n
      (u.arrange g.session fun x => { x with streams := [] })
      (v.arrange g.session fun x => { x with streams := [] }) :=
    giveAway h (fun _ => rfl) (fun _ _ => rfl)
      (fun x held => ⟨held.localEffect, rfl, held.capture⟩)
      fun x => List.cons_subset_cons _ (List.nil_subset _)
  refine Alike.bind ⟨rfl, given⟩ fun _ u₁ v₁ h => ?_
  have order := app.arranged_perm u₁.app x₀.streams
  rw [Run.get_bind, Run.get_bind, ← h.app]
  refine (closeStreams echoes quiet (fun st member => driven st (order.mem_iff.mp member)) h).bind
    fun _ u v h => ?_
  have kept : (g.mirror all (· ∈ ({ x₀ with streams := [] } : Session).ears g.side)
      { x₀ with streams := [] }).Reflects n u v := by
    refine Reflects.congr h fun _ => ?_
    rw [(order.map fun st => st.2.effect).mem_iff]
    exact Session.ears_removeStreams distinct g.side
  have inside : all x₀.localEffect := holds.localEffect ▸ within _ List.mem_cons_self
  refine (Mirror.Echo.modifyEffect (f := (·.reset)) (g := (·.reset)) inside ?_ n u v kept).bind
    fun _ u v h => ?_
  · rintro z z' ⟨ear, deaf⟩
    exact ⟨fun here => congrArg LevelEffect.reset (ear here),
      fun here => congrArg LevelEffect.reset (deaf here)⟩
  · exact (Mirror.Echo.sessionNotice (s := g.session) trivial a b n u v h).mono
      fun _ _ h => ⟨all, _, h⟩

theorem closeSession (driven : ∀ st ∈ x₀.streams, g.driven st.2.processor)
    (h : (g.mirror all (· ∈ x₀.ears g.side) x₀).Reflects n u v) :
    Alike (g.Trails n) (closeSession app again g.session u)
      (closeSession app again g.session v) := by
  refine h.session (s := g.session) trivial fun x y _ _ twins => ?_
  have capture : y.capture = x.capture := (g.mirror all _ x₀).capture twins.twin
  have localEffect : y.localEffect = x.localEffect :=
    ((g.mirror all _ x₀).localEffect twins.twin).2
  have holds := twins.twin.2.2 rfl
  refine (Mirror.Echo.occupy (s := g.session) (c := none) trivial nofun n u v h).bind
    fun _ u v h => ?_
  rw [capture, localEffect, holds.localEffect]
  dsimp only
  cases inUse : x.capture with
  | none => exact drain echoes quiet distinct driven _ _ h
  | some q =>
    exact (Mirror.Echo.close (echoes _) (holds.capture q inUse) quiet n u v h).bind
      fun _ _ _ h => drain echoes quiet distinct driven _ _ h

omit echoes quiet distinct in
/-- The session is in use as long as the operation takes. -/
theorem during {β : Type} {body : Run S β}
    (alike : (g.mirror all ears x₀).Reflects (Comparison.another n g.session)
        (u.arrange g.session Session.more) (v.arrange g.session Session.more) →
      Alike (g.Trails (Comparison.another n g.session)) (body (u.arrange g.session Session.more))
        (body (v.arrange g.session Session.more)))
    (h : (g.mirror all ears x₀).Reflects n u v) :
    Alike (g.Trails n) (duringUse app again g.session body u)
      (duringUse app again g.session body v) := by
  have begun := alike (h.use (t := g.session) trivial fun _ _ _ _ twins => twins.used rfl)
  have unfolds (w : World S) : duringUse app again g.session body w = (do
      let a ← body
      releaseSession app again g.session
      return a) (w.arrange g.session Session.more) := rfl
  rw [unfolds, unfolds]
  refine begun.bind fun a u v trails => ?_
  obtain ⟨all, x₁, h⟩ := trails
  exact (h.release (t := g.session) trivial).bind fun _ _ _ h => ⟨rfl, all, x₁, h⟩

end Operations

section Operating

variable {app : Application S} {depth : Nat}

/-- The operation leaves one world behind the other by the registration, and no more. -/
theorem operates {β : Type} {op : Call β} (operates : op.deed.Operates g.session)
    (quiet : app.Quiet) (proper : w.rig.Proper) (backed : w.rig.Backed)
    (known : w.rig.sessions[g.session]? = some x) (used : 0 < x.users)
    (driven : ∀ q, x.Handles op.deed q → g.driven q)
    (internal : ∀ q, g.driven q → w.rig.isExternal q = false) :
    Alike (g.Trails fun _ => 0) (perform app (depth + 1) op w)
      (perform app (depth + 1) op (w.registered g.side g.session g.listener x)) := by
  have echoes (m : Mirror) : m.Echoes S (perform app depth) := m.echoes quiet depth
  have begins := begins known used internal fun q inUse => driven q (.inr (.inl inUse))
  have apart := (proper _ _ known).distinct
  have streams (st : Ssrc × Stream) (member : st ∈ x.streams) : g.driven st.2.processor :=
    driven _ (.inr (.inr ⟨st, member, rfl⟩))
  cases op with
  | connectCapture t p =>
    obtain rfl : t = g.session := operates
    exact during (connectCapture echoes quiet (driven p (.inl rfl))) begins
  | addStream t k p =>
    obtain rfl : t = g.session := operates
    have more : (w.arrange g.session Session.more).rig.Proper :=
      (Furnishes.arrange (f := Session.more) (fun _ _ h => ⟨h.distinct, h.made, h.named⟩)
        fun _ _ => id).proper proper
    exact during (addStream echoes quiet (driven p (.inl rfl)) more backed
      (World.arrange_session known)) begins
  | removeStream t k =>
    obtain rfl : t = g.session := operates
    exact during
      (removeStream echoes quiet apart (proper _ _ known).named streams) begins
  | startSession t =>
    obtain rfl : t = g.session := operates
    exact during (startSession echoes quiet) begins
  | stopSession t =>
    obtain rfl : t = g.session := operates
    exact during (stopSession echoes quiet) begins
  | closeSession t =>
    obtain rfl : t = g.session := operates
    exact during (closeSession echoes quiet apart streams) begins
  | _ => exact operates.elim

end Operating

end Registration

/-- Whatever a session is asked to do with processors, it makes no difference whether a listener is
registered before or after: the answer is the same and so is what it leads to, and frames that are
sent later cause the same calls of the application. -/
theorem register_comm {app : Application S} (quiet : app.Quiet) {depth₀ : Nat}
    {program : Program S α} {b : S} {a : α} {w : World S}
    (run : program.run (perform app depth₀) { app := b } = .ok (a, w)) (backed : w.rig.Backed)
    {s : SessionId} {x : Session} (known : w.rig.sessions[s]? = some x) (used : 0 < x.users)
    {β : Type} {op : Call β} (operates : op.deed.Operates s)
    (internal : ∀ q, x.Handles op.deed q → w.rig.isExternal q = false) (side : Side)
    (l : Option ListenerId) (depth : Nat) :
    Alike (World.Interchangeable app (fun q => w.rig.isExternal q = false) s)
      (registeredAfter app depth side s l op w) (registeredBefore app depth side s l op w) := by
  cases depth with
  | zero => trivial
  | succ depth =>
    have proper := (Rig.whole_of_run run).proper
    let g : Registration := ⟨side, s, l, fun q => w.rig.isExternal q = false⟩
    have alike : Alike (g.Trails fun _ => 0) (perform app (depth + 1) op w)
        (perform app (depth + 1) op (w.registered side s l x)) :=
      Registration.operates operates quiet proper backed known used internal fun _ => id
    have before : registeredBefore app (depth + 1) side s l op w =
        (perform app (depth + 1) op >>= pure) (w.registered side s l x) := by
      rw [bind_pure]
      exact Run.bind_eq (register_eq app depth known) _
    rw [before]
    refine alike.bind_of ((Furnishes.abiding app).perform (depth + 1) op w)
      fun r u v trails furnishes => ?_
    obtain ⟨all, x₁, h⟩ := trails
    obtain ⟨y, known'⟩ := furnishes.known known
    have settled := Registration.concludes h known'
    have after : (do
        perform app (depth + 1) (side.register s l)
        return r : Run S β) u = .ok (r, u.registered side s l y) :=
      Run.bind_eq (register_eq app depth known') _
    rw [after]
    refine ⟨rfl, Registration.Reflects.same settled, fun later makes depth => ?_⟩
    have hears : Mirror.Echo.Hears (g.settled.mirror all (fun _ => False) x₁) := by
      rintro e z z' b ⟨-, deaf⟩
      rw [deaf id]
      exact ⟨rfl, False.elim, fun _ => rfl⟩
    have plays := Mirror.Echo.program makes (Mirror.Echo.plays quiet hears
      (fun t live _ _ r twin inUse => (twin.2.2 live).capture r inUse) depth) _ _ _ settled
    rw [show (g.settled.mirror all _ x₁).session = id from rfl, Program.rename_id] at plays
    exact plays.mono fun _ _ h => Registration.Reflects.same h

theorem Rig.isExternal_of_soft {r : Rig} (soft : ∀ y ∈ r.processors, y.isExternal = false)
    (q : ProcessorId) : r.isExternal q = false := by
  cases here : r.processors[q]? with
  | none => simp [Rig.isExternal, here]
  | some y => exact (Rig.isExternal_of here).trans (soft y (List.mem_of_getElem? here))

/-- A session has a processor for capture and a stream. Another processor has been closed. -/
def Program.gathering : Program Unit Unit := do
  let p ← .send (.newProcessor "p" [⟨.audio .telephone, true⟩])
  let q ← .send (.newProcessor "q" [⟨.audio .telephone, true⟩])
  let r ← .send (.newProcessor "r" [⟨.audio .telephone, true⟩])
  let s ← .send (.newSession "s" ⟨"d", "d", false⟩ {})
  .send (.setStreamListener s (some 3))
  let _ ← .send (.connectCapture s p)
  let _ ← .send (.addStream s 5 q)
  .send (.close r)

theorem register_comm_silent : (Application.silent Unit).Quiet ∧
    ∃ w, Program.gathering.run (perform (.silent Unit) 8) { app := () } = .ok ((), w) ∧
      w.rig.Backed ∧
      Alike (World.Interchangeable (.silent Unit) (fun q => w.rig.isExternal q = false) 0)
        (registeredAfter (.silent Unit) 8 .stream 0 (some 9) (.addStream 0 6 2) w)
        (registeredBefore (.silent Unit) 8 .stream 0 (some 9) (.addStream 0 6 2) w) ∧
      Alike (World.Interchangeable (.silent Unit) (fun q => w.rig.isExternal q = false) 0)
        (registeredAfter (.silent Unit) 8 .capture 0 none (.closeSession 0) w)
        (registeredBefore (.silent Unit) 8 .capture 0 none (.closeSession 0) w) ∧
      (registeredAfter (.silent Unit) 8 .stream 0 (some 9) (.addStream 0 6 2)).Ends w fun u =>
        u.rig.effects.map (·.listener) = [none, some 9, some 3] := by
  have quiet := Application.silent_quiet Unit
  have ends : (Program.gathering.run (perform (.silent Unit) 8)).Ends { app := () } fun w =>
      w.rig.Backed ∧ (∀ y ∈ w.rig.processors, y.isExternal = false) ∧
      (w.rig.sessions[0]?).any (fun x => x.users == 1) ∧
      (registeredAfter (.silent Unit) 8 .stream 0 (some 9) (.addStream 0 6 2)).Ends w fun u =>
        u.rig.effects.map (·.listener) = [none, some 9, some 3] := by
    decide +kernel
  obtain ⟨_, w, run, backed, soft, session, ends⟩ := ends
  obtain ⟨x, known, one⟩ := (Option.any_eq_true _ _).mp session
  have used : 0 < x.users := by
    rw [eq_of_beq one]
    decide
  have internal := Rig.isExternal_of_soft soft
  have adds : (Call.addStream 0 6 2).deed.Operates 0 := rfl
  have closes : (Call.closeSession 0).deed.Operates 0 := rfl
  exact ⟨quiet, w, run, backed,
    register_comm quiet run backed known used adds (fun q _ => internal q) .stream (some 9) 8,
    register_comm quiet run backed known used closes (fun q _ => internal q) .capture none 8, ends⟩

end Metering
