import Mathlib.Data.List.Nodup
import Metering.Proofs.Holdings
import Metering.Proofs.Mirrored
/-!
Registrations of listeners. A listener that is registered for a side of a session is set for the
effects that the session has on that side, and for the streams to come it is stored. A world in
which the registration came first mirrors one in which it is still to come, whatever the session is
asked to do on the way.
-/

namespace Metering

variable {S α : Type}

def Side.register (side : Side) (s : SessionId) (l : Option ListenerId) : Call Unit :=
  match side with
  | .capture => .setLocalListener s l
  | .stream => .setStreamListener s l

/-- The effects of a session that measure a side. -/
def Session.ears (x : Session) : Side → List EffectId
  | .capture => [x.localEffect]
  | .stream => x.streams.map (·.2.effect)

def Session.hearing (x : Session) (l : Option ListenerId) : Side → Session
  | .capture => x
  | .stream => { x with streamListener := l }

def Rig.registered (r : Rig) (side : Side) (s : SessionId) (l : Option ListenerId)
    (x : Session) : Rig where
  processors := r.processors
  effects := (x.ears side).foldl (fun es e => es.modify e (·.setListener l)) r.effects
  sessions := r.sessions.modify s (·.hearing l side)

def World.registered (w : World S) (side : Side) (s : SessionId) (l : Option ListenerId)
    (x : Session) : World S := { w with rig := w.rig.registered side s l x }

theorem LevelEffect.setListener_setListener (z : LevelEffect) (l k : Option ListenerId) :
    (z.setListener l).setListener k = z.setListener k := rfl

section Registered

variable {w : World S} {side : Side} {s : SessionId} {l : Option ListenerId} {x : Session}

theorem getElem?_setListeners (ears : List EffectId) (es : List LevelEffect) (e : EffectId) :
    (ears.foldl (fun es e => es.modify e (·.setListener l)) es)[e]? =
      (es[e]?).map fun z => if e ∈ ears then z.setListener l else z := by
  induction ears generalizing es with
  | nil => simp
  | cons a ears ih =>
    rw [List.foldl_cons, ih, List.getElem?_modify]
    cases es[e]? with
    | none => simp
    | some z =>
      by_cases here : a = e
      · subst here
        by_cases again : a ∈ ears
        · simp [again, LevelEffect.setListener_setListener]
        · simp [again]
      · simp [here, Ne.symm here]

theorem Run.each_setListener (streams : List (Ssrc × Stream)) (w : World S) :
    Run.each (fun k => setListener k.2.effect l) streams w = .ok ((), { w with rig := { w.rig with
      effects := (streams.map (·.2.effect)).foldl (fun es e => es.modify e (·.setListener l))
        w.rig.effects } }) := by
  induction streams generalizing w with
  | nil => rfl
  | cons k streams ih =>
    refine (Run.bind_eq (m := setListener k.2.effect l) rfl _).trans ?_
    exact ih _

/-- What it comes to that a listener is registered. -/
theorem register_eq (app : Application S) (depth : Nat) (known : w.rig.sessions[s]? = some x) :
    perform app (depth + 1) (side.register s l) w = .ok ((), w.registered side s l x) := by
  cases side with
  | capture =>
    refine (Run.bind_eq (Run.session_eq known) _).trans ?_
    have same : w.rig.sessions.modify s (·.hearing l .capture) = w.rig.sessions :=
      List.modify_id ..
    rw [World.registered, Rig.registered, same]
    rfl
  | stream =>
    refine (Run.bind_eq (m := Run.modifySession s _) rfl _).trans ?_
    refine (Run.bind_eq (Run.session_eq (x := x.hearing l .stream) ?_) _).trans ?_
    · simp [known, Session.hearing]
    · exact Run.each_setListener x.streams _

end Registered

section Ears

variable {x : Session} {k : Ssrc} {st : Stream} {e : EffectId} (distinct : x.effects.Nodup)
include distinct

/-- The effect of a stream is heard on no other side, and of no other stream. -/
theorem Session.ears_removeStream (named : (x.streams.map (·.1)).Nodup)
    (found : x.stream? k = some st) (side : Side) :
    e ∈ x.ears side ∧ e ≠ st.effect ↔ e ∈ (x.removeStream k).ears side := by
  obtain ⟨apart, once⟩ := List.nodup_cons.mp distinct
  have member := Session.mem_of_stream? found
  cases side with
  | capture =>
    have other : x.localEffect ≠ st.effect := fun same =>
      apart (List.mem_map.mpr ⟨_, member, same.symm⟩)
    simp only [ears, removeStream, List.mem_singleton]
    exact ⟨And.left, fun same => ⟨same, same ▸ other⟩⟩
  | stream =>
    simp only [ears, removeStream, List.mem_map, List.mem_filter]
    constructor
    · rintro ⟨⟨y, within, rfl⟩, other⟩
      refine ⟨y, ⟨within, bne_iff_ne.mpr fun same => other ?_⟩, rfl⟩
      rw [List.inj_on_of_nodup_map named within member same]
    · rintro ⟨y, ⟨within, other⟩, rfl⟩
      refine ⟨⟨y, within, rfl⟩, fun same => bne_iff_ne.mp other ?_⟩
      rw [List.inj_on_of_nodup_map once within member same]

/-- A session without streams has the effect for capture only. -/
theorem Session.ears_removeStreams (side : Side) :
    e ∈ x.ears side ∧ e ∉ x.streams.map (·.2.effect) ↔
      e ∈ ({ x with streams := [] } : Session).ears side := by
  have apart := (List.nodup_cons.mp distinct).1
  cases side with
  | capture =>
    simp only [ears, List.mem_singleton]
    exact ⟨And.left, fun same => ⟨same, same ▸ apart⟩⟩
  | stream =>
    simp only [ears, List.map_nil, List.not_mem_nil, iff_false]
    exact fun both => both.2 both.1

end Ears

/-- A stream is measured on its own side only. -/
theorem Session.ears_addStream {x : Session} {k : Ssrc} {st : Stream} {e : EffectId}
    (other : e ≠ st.effect) (side : Side) :
    e ∈ (x.addStream k st).ears side ↔ e ∈ x.ears side := by
  cases side with
  | capture => rfl
  | stream => simp [ears, addStream, other]

theorem Session.removeStream_addStream {x : Session} {k : Ssrc} (absent : x.hasStream k = false)
    (st : Stream) : (x.addStream k st).removeStream k = x := by
  have others : x.streams.filter (fun e => e.1 != k) = x.streams := by
    refine List.filter_eq_self.mpr fun y member => bne_iff_ne.mpr fun same => ?_
    have present : x.hasStream k = true := List.any_eq_true.mpr ⟨y, member, beq_iff_eq.mpr same⟩
    cases absent.symm.trans present
  simp [removeStream, addStream, others]

/-- The plug-in is not an effect that has still to be made, when there are so many effects. -/
def PlugIn.Made (n : Nat) : PlugIn → Prop
  | .effect e => e < n
  | .codec .. => True

instance (n : Nat) : DecidablePred (PlugIn.Made n)
  | .effect _ => inferInstanceAs (Decidable (_ < n))
  | .codec .. => isTrue trivial

/-- Only effects that were made stand in chains. -/
def Rig.Backed (r : Rig) : Prop :=
  ∀ y ∈ r.processors, ∀ t ∈ y.tracks, ∀ x ∈ t.chain, x.Made r.effects.length

instance (r : Rig) : Decidable r.Backed :=
  inferInstanceAs (Decidable (∀ y ∈ r.processors, ∀ t ∈ y.tracks, ∀ x ∈ t.chain, x.Made _))

/-- A session holds the effect, or it stands in a chain. -/
def Rig.Refers (r : Rig) (e : EffectId) : Prop :=
  (∃ (s : SessionId) (x : Session), r.sessions[s]? = some x ∧ e ∈ x.effects) ∨
    ∃ (p : ProcessorId) (x : Processor), r.processors[p]? = some x ∧
      ∃ t ∈ x.tracks, .effect e ∈ t.chain

/-- The worlds are the same, except for effects that nothing has to do with. The application was
called for the same things. -/
structure World.Same (u v : World S) : Prop where
  app : u.app = v.app
  journal : u.journal.filter Entry.isCallback = v.journal.filter Entry.isCallback
  processors : u.rig.processors = v.rig.processors
  sessions : u.rig.sessions = v.rig.sessions
  effects : ∀ e, u.rig.Refers e → u.rig.effects[e]? = v.rig.effects[e]?

section Hearing

variable {x : Session} {side : Side} {l : Option ListenerId}

@[simp]
theorem Session.hearing_streams : (x.hearing l side).streams = x.streams := by
  cases side <;> rfl

@[simp]
theorem Session.hearing_localEffect : (x.hearing l side).localEffect = x.localEffect := by
  cases side <;> rfl

@[simp]
theorem Session.hearing_capture : (x.hearing l side).capture = x.capture := by
  cases side <;> rfl

@[simp]
theorem Session.hearing_config : (x.hearing l side).config = x.config := by
  cases side <;> rfl

@[simp]
theorem Session.hearing_users : (x.hearing l side).users = x.users := by
  cases side <;> rfl

/-- What is stored for a side does not hang on what else changes in a session. -/
theorem Session.hearing_congr {f : Session → Session}
    (same : ∀ x k, f { x with streamListener := k } = { f x with streamListener := k }) :
    (f x).hearing l side = f (x.hearing l side) := by
  cases side with
  | capture => rfl
  | stream => exact (same x l).symm

end Hearing

/-- A registration that is made in one world and still to come in another. -/
structure Registration where
  side : Side
  session : SessionId
  listener : Option ListenerId
  /-- The processors that may be driven on the way. -/
  driven : ProcessorId → Prop

namespace Registration

variable (g : Registration)

/-- The session in the world in which the registration was made. -/
def other (t : SessionId) (x : Session) : Session :=
  if t = g.session then x.hearing g.listener g.side else x

/-- The effects are as the session holds them, and its processors may be driven. -/
structure Holds (x₀ x : Session) : Prop where
  localEffect : x.localEffect = x₀.localEffect
  streams : x.streams = x₀.streams
  capture : ∀ q ∈ x.capture, g.driven q

/-- In the second world some of the effects have their new listener already. The session holds what
`x₀` does, and nobody has to do with other effects than those of `all`. -/
def mirror (all ears : EffectId → Prop) (x₀ : Session) : Mirror where
  effect := id
  session := id
  sees _ := True
  drives := g.driven
  effects := all
  sessions _ := True
  live t := t = g.session
  least := 0
  similar e a b := (ears e → b = a.setListener g.listener) ∧ (¬ears e → b = a)
  twin t x y := y = g.other t x ∧ (∀ e ∈ x.effects, all e) ∧ (t = g.session → g.Holds x₀ x)
  drives_sees _ := trivial
  live_sessions _ := trivial
  effect_inj _ _ := id
  session_inj _ _ := id
  offered f similar := by
    refine ⟨fun ear => ?_, fun deaf => ?_⟩
    · rw [similar.1 ear]
      rfl
    · rw [similar.2 deaf]
  config := by
    rintro t x _ ⟨rfl, -, -⟩
    unfold other
    split <;> simp
  capture := by
    rintro t x _ ⟨rfl, -, -⟩
    unfold other
    split <;> simp
  localEffect := by
    rintro t x _ ⟨rfl, within, -⟩
    refine ⟨within _ List.mem_cons_self, ?_⟩
    unfold other
    split <;> simp
  stream? := by
    rintro t x _ ⟨rfl, within, -⟩ k
    refine ⟨?_, fun st found => within _ (Session.mem_effects.mpr
      (.inr ⟨_, Session.mem_of_stream? found, rfl⟩))⟩
    have same : (g.other t x).stream? k = x.stream? k := by
      unfold other Session.stream?
      split <;> simp
    rw [same]
    exact (Option.map_id' ..).symm
  uses := by
    rintro t x _ f ⟨rfl, within, holds⟩
    refine ⟨?_, within, fun here => ⟨(holds here).localEffect, (holds here).streams,
      (holds here).capture⟩⟩
    unfold other
    split
    · exact (Session.hearing_congr (f := fun x => { x with users := f x.users })
        fun _ _ => rfl).symm
    · rfl
  occupies := by
    rintro t x _ c driven ⟨rfl, within, holds⟩
    refine ⟨?_, within, fun here => ⟨(holds here).localEffect, (holds here).streams, driven⟩⟩
    unfold other
    split
    · exact (Session.hearing_congr (f := fun x => { x with capture := c }) fun _ _ => rfl).symm
    · rfl

variable {g} {all ears : EffectId → Prop} {x₀ x : Session} {n : SessionId → Nat} {u v w : World S}

theorem mirror_image : (g.mirror all ears x₀).image = id := by
  have plugIn : (g.mirror all ears x₀).plugIn = id := by
    funext z
    cases z <;> rfl
  have subscriber : (g.mirror all ears x₀).subscriber = id := by
    funext z
    cases z <;> rfl
  have track : (g.mirror all ears x₀).track = id := by
    funext t
    simp [Mirror.track, plugIn]
  funext y
  simp [Mirror.image, track, subscriber]

theorem covers_all (y : Processor) : (g.mirror (fun _ => True) ears x₀).Covers y :=
  ⟨fun _ _ _ _ => trivial, fun z _ => by cases z <;> trivial⟩

/-- The registration is made in one of two equal worlds. -/
theorem begins (known : w.rig.sessions[g.session]? = some x) (used : 0 < x.users)
    (internal : ∀ q, g.driven q → w.rig.isExternal q = false)
    (capture : ∀ q ∈ x.capture, g.driven q) :
    (g.mirror (fun _ => True) (· ∈ x.ears g.side) x).Reflects (fun _ => 0) w
      (w.registered g.side g.session g.listener x) where
  app := rfl
  journal := rfl
  processors q _ := by
    rw [mirror_image]
    simp [World.registered, Rig.registered]
  covers _ y _ _ := covers_all y
  internal q y driven here := by
    rw [← Rig.isExternal_of here]
    exact internal q driven
  least := Nat.zero_le _
  -- Only the ears of the session are different.
  effects e _ := by
    change Option.Rel _ _ ((x.ears g.side).foldl _ w.rig.effects)[e]?
    rw [getElem?_setListeners]
    refine Mirror.rel_map fun z _ => ⟨fun ear => ?_, fun deaf => ?_⟩
    · exact if_pos ear
    · exact if_neg deaf
  sessions t _ := by
    change Option.Rel _ _ (w.rig.sessions.modify g.session (·.hearing g.listener g.side))[t]?
    rw [List.getElem?_modify]
    refine Mirror.rel_map fun y here => ⟨⟨?_, fun _ _ => trivial, ?_⟩, ?_⟩
    · simp only [other, eq_comm]
    · rintro rfl
      obtain rfl := Option.some.inj (known.symm.trans here)
      exact ⟨rfl, rfl, capture⟩
    · have same : (if g.session = t then y.hearing g.listener g.side else y).users = y.users := by
        split <;> simp
      simp only [same]
      obtain none | some := Nat.eq_zero_or_pos y.users
      · refine .inl ⟨?_, none, none⟩
        rintro rfl
        obtain rfl := Option.some.inj (known.symm.trans here)
        exact absurd (none ▸ used) (Nat.lt_irrefl 0)
      · exact .inr ⟨some, some⟩

theorem Reflects.congr {ears' : EffectId → Prop} (h : (g.mirror all ears x₀).Reflects n u v)
    (same : ∀ e, ears e ↔ ears' e) : (g.mirror all ears' x₀).Reflects n u v := by
  obtain rfl : ears = ears' := funext fun e => propext (same e)
  exact h

theorem Holds.ears_eq (h : g.Holds x₀ x) (side : Side) : x.ears side = x₀.ears side := by
  cases side with
  | capture => simp [Session.ears, h.localEffect]
  | stream => simp [Session.ears, h.streams]

/-- Effects and sessions change, and with them what is known of them. -/
theorem Reflects.change {all' ears' : EffectId → Prop} {x₁ : Session} {es es' : List LevelEffect}
    {ss ss' : List Session} (h : (g.mirror all ears x₀).Reflects n u v)
    (chains : ∀ (q : ProcessorId) (y : Processor), u.rig.processors[q]? = some y → ∀ t ∈ y.tracks,
      ∀ e, .effect e ∈ t.chain → all' e)
    (effects : ∀ e, all' e → Option.Rel ((g.mirror all' ears' x₁).similar e) es[e]? es'[e]?)
    (sessions : ∀ t, Option.Rel ((g.mirror all' ears' x₁).Twins t (n t)) ss[t]? ss'[t]?) :
    (g.mirror all' ears' x₁).Reflects n
      { u with rig := { u.rig with effects := es, sessions := ss } }
      { v with rig := { v.rig with effects := es', sessions := ss' } } where
  app := h.app
  journal := h.journal
  processors := h.processors
  covers q y _ here := ⟨chains q y here, fun z _ => by cases z <;> trivial⟩
  internal := h.internal
  least := Nat.zero_le _
  effects e := effects e
  sessions t _ := sessions t

/-- The session changes in both worlds. -/
theorem Reflects.arranged {all' ears' : EffectId → Prop} {x₁ : Session} {f : Session → Session}
    (h : (g.mirror all ears x₀).Reflects n u v) (users : ∀ x, (f x).users = x.users)
    (commutes : ∀ x k, f { x with streamListener := k } = { f x with streamListener := k })
    (holds : ∀ x, g.Holds x₀ x → (∀ e ∈ x.effects, all e) →
      g.Holds x₁ (f x) ∧ ∀ e ∈ (f x).effects, all' e)
    (others : ∀ t x, u.rig.sessions[t]? = some x → t ≠ g.session → (∀ e ∈ x.effects, all e) →
      ∀ e ∈ x.effects, all' e) (t : SessionId) :
    Option.Rel ((g.mirror all' ears' x₁).Twins t (n t)) (u.rig.sessions.modify g.session f)[t]?
      (v.rig.sessions.modify g.session f)[t]? := by
  by_cases here : g.session = t
  · subst here
    refine Mirror.rel_modify (h.sessions g.session trivial) ?_
    rintro x _ - - ⟨⟨rfl, within, held⟩, used⟩
    obtain ⟨held, within⟩ := holds x (held rfl) within
    refine ⟨⟨?_, within, fun _ => held⟩, ?_⟩
    · simp only [other, if_true]
      exact (Session.hearing_congr commutes).symm
    · rw [users, users]
      exact used
  · have apart := fun eq : t = g.session => here eq.symm
    simp only [List.getElem?_modify, here, if_false, id_map']
    refine Mirror.rel_mono (h.sessions t trivial) ?_
    rintro y z known ⟨⟨same, within, -⟩, users⟩
    exact ⟨⟨same, others t y known apart within, fun eq => (apart eq).elim⟩, users⟩

def settled (g : Registration) : Registration := { g with side := .capture }

theorem settled_other (t : SessionId) (x : Session) : g.settled.other t x = x := by
  unfold other
  split
  · rfl
  · rfl

/-- The registration is made at last in the other world, too. -/
theorem concludes (h : (g.mirror all (· ∈ x₀.ears g.side) x₀).Reflects n u v)
    (known : u.rig.sessions[g.session]? = some x) :
    (g.settled.mirror all (fun _ => False) x₀).Reflects n
      (u.registered g.side g.session g.listener x) v where
  app := h.app
  journal := h.journal
  processors q _ := by
    have same : (g.settled.mirror all (fun _ => False) x₀).image =
        (g.mirror all (· ∈ x₀.ears g.side) x₀).image := mirror_image.trans mirror_image.symm
    rw [same]
    exact h.processors q trivial
  covers q y _ here := ⟨(h.covers q y trivial here).chains, fun z _ => by cases z <;> trivial⟩
  internal := h.internal
  least := Nat.zero_le _
  -- The ears of the session get the listener now, so that no effect is different any more.
  effects e inside := by
    change Option.Rel _ ((x.ears g.side).foldl _ u.rig.effects)[e]? v.rig.effects[e]?
    obtain ⟨y, -, twins⟩ := h.known (s := g.session) trivial known
    rw [getElem?_setListeners, (twins.twin.2.2 rfl).ears_eq]
    obtain ⟨a, b, here, here', ear, deaf⟩ | ⟨none, none'⟩ := Mirror.rel_cases (h.effects e inside)
    · rw [here, show v.rig.effects[e]? = _ from here']
      refine .some ⟨False.elim, fun _ => ?_⟩
      by_cases member : e ∈ x₀.ears g.side
      · simp [member, ear member]
      · simp [member, deaf member]
    · rw [none, show v.rig.effects[e]? = _ from none']
      exact .none
  sessions t _ := by
    change Option.Rel _ (u.rig.sessions.modify g.session (·.hearing g.listener g.side))[t]?
      v.rig.sessions[t]?
    rw [List.getElem?_modify]
    obtain ⟨y, z, here, here', ⟨rfl, within, holds⟩, users⟩ | ⟨none, none'⟩ :=
      Mirror.rel_cases (h.sessions t trivial)
    · rw [here, show v.rig.sessions[t]? = _ from here']
      refine .some ⟨⟨?_, ?_, ?_⟩, ?_⟩
      · rw [settled_other]
        simp [other, eq_comm]
      · split
        · simpa [Session.effects] using within
        · exact within
      · rintro rfl
        obtain ⟨localEffect, streams, capture⟩ := holds rfl
        simp only [settled, if_true]
        exact ⟨by simpa using localEffect, by simpa using streams, by simpa using capture⟩
      · have same : (if g.session = t then y.hearing g.listener g.side else y).users = y.users := by
          split <;> simp
        rw [same]
        exact users
    · rw [none, show v.rig.sessions[t]? = _ from none']
      exact .none

/-- Worlds that both have the registration are the same. -/
theorem Reflects.same (h : (g.settled.mirror all (fun _ => False) x₀).Reflects n u v) :
    u.Same v where
  app := h.app
  journal := h.journal
  processors := by
    apply List.ext_getElem?
    intro q
    have image := h.processors q trivial
    rw [mirror_image, Option.map_id] at image
    exact image.symm
  sessions := by
    apply List.ext_getElem?
    intro t
    obtain ⟨y, z, here, here', twins⟩ | ⟨none, none'⟩ := Mirror.rel_cases (h.sessions t trivial)
    · rw [here, show v.rig.sessions[t]? = _ from here', twins.twin.1, settled_other]
    · exact none.trans none'.symm
  effects e refers := by
    have inside : all e := by
      obtain ⟨t, y, here, member⟩ | ⟨q, y, here, t, track, member⟩ := refers
      · obtain ⟨z, -, twins⟩ := h.known (s := t) trivial here
        exact twins.twin.2.1 e member
      · exact (h.covers q y trivial here).chains t track e member
    obtain ⟨a, b, here, here', -, deaf⟩ | ⟨none, none'⟩ := Mirror.rel_cases (h.effects e inside)
    · rw [here, show v.rig.effects[e]? = _ from here', deaf id]
    · exact none.trans none'.symm

end Registration

end Metering
