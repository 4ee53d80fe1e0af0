import Metering.Proofs.Clearing
import Metering.Proofs.Conversing
import Metering.Proofs.Standby
/-!
Events that come back to nobody. Watchers that do not call back, and sessions that have nothing to
do about an event but write it down, leave the rig as it is. What the watchers make of the state of
the application can be said without the rig.
-/

namespace Metering

variable {S : Type}

/-- Nobody calls back when the processor is said to have realized: the watchers are quiet, and the
sessions are there and do not start it. -/
structure Rig.Undisturbed (app : Application S) (r : Rig) (p : ProcessorId)
    (zs : List Subscriber) : Prop where
  watchers : ∀ x, .watcher x ∈ zs → ∀ e, (app.event x p e).Quiet
  attended : r.Attends zs
  still : ∀ z ∈ zs, r.drives .realized z = false

/-- Only the sessions matter. -/
theorem Rig.Undisturbed.congr {app : Application S} {r r' : Rig} {p : ProcessorId}
    {zs : List Subscriber} (h : r.Undisturbed app p zs) (sessions : r'.sessions = r.sessions) :
    r'.Undisturbed app p zs where
  watchers := h.watchers
  attended := by
    rw [Rig.Attends, sessions]
    exact h.attended
  still z member := by
    rw [Rig.drives, sessions]
    exact h.still z member

/-- Something is written down at most, but no call. -/
structure Idles (w w' : World S) : Prop where
  app : w'.app = w.app
  rig : w'.rig = w.rig
  calls : calls w'.journal = calls w.journal

/-- The subscribers were told an event, and watchers had their way with the application's state. -/
structure Told (app : Application S) (p : ProcessorId) (e : Event) (zs : List Subscriber)
    (w w' : World S) : Prop where
  app : w'.app = (app.tell p e (zs.filter (·.session?.isNone)) w.app).1
  rig : w'.rig = w.rig
  calls : calls w'.journal = calls w.journal

section Sessions

variable {app : Application S} {w : World S} {s : SessionId} {y : Session} {p : ProcessorId}
variable {again : {β : Type} → Call β → Run S β}

theorem Idles.refl (w : World S) : Idles w w := ⟨rfl, rfl, rfl⟩

theorem Idles.record (w : World S) {e : Entry} (silent : e.call? = none) :
    Idles w (w.record e) where
  app := rfl
  rig := rfl
  calls := by rw [World.record_journal, calls_cons, silent, Option.toList_none, List.append_nil]

theorem sessionNotice_idles (known : w.rig.sessions[s]? = some y) (n : SessionNotice) :
    Yields (sessionNotice s n) w fun _ w' => Idles w w' :=
  Yields.session known (yields_notice.mpr (.record w rfl))

theorem captureUpdate_idles (known : w.rig.sessions[s]? = some y) {e : Event}
    (rests : (Subscriber.capture s).drivenBy e = false) :
    Yields (captureUpdate app again s p e) w fun _ w' => Idles w w' := by
  apply Yields.session known
  cases e with
  | configured => cases rests
  | _ => exact sessionNotice_idles known _

theorem streamUpdate_idles (known : w.rig.sessions[s]? = some y) {k : Ssrc} {e : Event}
    (rests : (Subscriber.stream s k).drivenBy e = true →
      e = .realized ∧ y.config.startStreams = false) :
    Yields (streamUpdate app again s k p e) w fun _ w' => Idles w w' := by
  cases e with
  | configured => cases (rests rfl).1
  | realized =>
    apply Yields.session known
    simp only [(rests rfl).2, Bool.false_eq_true, if_false]
    exact yields_pure.mpr (.refl w)
  | _ => exact sessionNotice_idles known _

/-- A session that is used for as long as it writes something down is used by as many afterwards as
before. -/
theorem whileUsed_idles (known : w.rig.sessions[s]? = some y) {body : Run S Unit}
    (does : 0 < y.users → ∀ v : World S, v.rig.sessions[s]? = some y.more →
      Yields body v fun _ v' => Idles v v') (depth : Nat) :
    Yields (whileUsed (perform app (depth + 1)) s body) w fun _ w' => Idles w w' := by
  apply Yields.session known
  split
  · next used =>
    refine yields_bind.mpr (yields_modifySession.mpr ?_)
    have more : (w.arrange s Session.more).rig.sessions[s]? = some y.more :=
      World.arrange_session known
    refine (does used _ more).bind ?_
    intro _ v idles
    have still : v.rig.sessions[s]? = some y.more := by
      rw [idles.rig]
      exact more
    refine ⟨(), _, releaseSession_eq still (Session.many_more used) (perform app depth), idles.app,
      ?_, idles.calls⟩
    rw [World.arrange, idles.rig]
    exact congrArg (fun ss => { w.rig with sessions := ss }) (sessions_back known)
  · exact yields_pure.mpr (.refl w)

end Sessions

section Telling

variable {app : Application S} {w : World S} {p : ProcessorId} {e : Event}
variable {zs : List Subscriber}

/-- A subscriber that the event does not move is told it. -/
theorem deliver_told {z : Subscriber} (quiet : ∀ x, z = .watcher x → (app.event x p e).Quiet)
    (attended : ∀ s ∈ z.session?, s < w.rig.sessions.length) (still : w.rig.drives e z = false)
    (depth : Nat) : Yields (deliver app (perform app (depth + 1)) p e z) w fun _ w' =>
      Told app p e [z] w w' := by
  apply Yields.record
  have noted : Idles w (w.record (.told z p e)) := .record w rfl
  -- A session that is told does nothing that others could see.
  have idle {v : World S} (of : z.session?.isNone = false)
      (idles : Idles (w.record (.told z p e)) v) : Told app p e [z] w v := by
    have same : v.app = w.app := idles.app
    refine ⟨?_, idles.rig, idles.calls.trans noted.calls⟩
    simpa [Application.tell, of] using same
  cases z with
  | watcher x =>
    obtain ⟨⟨⟩, s, acts⟩ := (quiet x rfl).acts w.app
    refine ⟨(), _, Program.run_of_act _ acts, ?_, rfl, (calls_acted _ _ _).trans noted.calls⟩
    simp [Application.tell, Subscriber.session?, acts]
  | capture s =>
    obtain ⟨y, there⟩ : ∃ y, w.rig.sessions[s]? = some y :=
      ⟨_, List.getElem?_eq_getElem (attended s rfl)⟩
    refine (whileUsed_idles (w := w.record _) there (fun used v more => ?_) depth).mono
      fun _ _ => idle rfl
    refine captureUpdate_idles more ?_
    by_contra driven
    obtain ⟨rfl, -⟩ := Rig.rests_of_still still rfl there used (by simpa using driven)
    exact driven rfl
  | stream s k =>
    obtain ⟨y, there⟩ : ∃ y, w.rig.sessions[s]? = some y :=
      ⟨_, List.getElem?_eq_getElem (attended s rfl)⟩
    refine (whileUsed_idles (w := w.record _) there (fun used v more => ?_) depth).mono
      fun _ _ => idle rfl
    have rests := Rig.rests_of_still still rfl there used
    exact streamUpdate_idles more rests

theorem Told.cons {u v : World S} {z : Subscriber}
    (quiet : ∀ x, z = .watcher x → (app.event x p e).Quiet) (first : Told app p e [z] u v)
    (rest : Told app p e zs v w) : Told app p e (z :: zs) u w where
  app := by
    rw [rest.app, first.app]
    cases z with
    | watcher x =>
      obtain ⟨⟨⟩, s, acts⟩ := (quiet x rfl).acts u.app
      simp [Application.tell, Subscriber.session?, acts]
    | capture s => rfl
    | stream s k => rfl
  rig := rest.rig.trans first.rig
  calls := rest.calls.trans first.calls

/-- An event that moves none of the subscribers is told to all of them. -/
theorem emit_told {x : Processor} (known : w.rig.processors[p]? = some x)
    (quiet : ∀ z, .watcher z ∈ x.subscribers → (app.event z p e).Quiet)
    (attended : w.rig.Attends x.subscribers) (still : ∀ z ∈ x.subscribers, w.rig.drives e z = false)
    (depth : Nat) : Yields (emit app (perform app (depth + 1)) p e) w fun _ w' =>
      Told app p e x.subscribers w w' := by
  have all (zs : List Subscriber) : ∀ v : World S, v.rig = w.rig → zs ⊆ x.subscribers →
      Yields (Run.each (deliver app (perform app (depth + 1)) p e) zs) v fun _ v' =>
        Told app p e zs v v' := by
    induction zs with
    | nil => exact fun v _ _ => yields_pure.mpr ⟨rfl, rfl, rfl⟩
    | cons z zs ih =>
      intro v same within
      have here : z ∈ x.subscribers := within List.mem_cons_self
      have quiet : ∀ y, z = .watcher y → (app.event y p e).Quiet := fun y eq => quiet y (eq ▸ here)
      refine (deliver_told quiet (same ▸ attended z here) (same ▸ still z here) depth).bind ?_
      intro _ v' told
      have rest := ih v' (told.rig.trans same) fun _ member =>
        within (List.mem_cons_of_mem _ member)
      exact rest.mono fun _ _ later => .cons quiet told later
  have noted : Idles w (w.record (.announced p e)) := .record w rfl
  apply Yields.record
  apply Yields.processor (w := w.record (.announced p e)) known
  refine (all x.subscribers (w.record (.announced p e)) rfl (List.Subset.refl _)).mono ?_
  exact fun _ _ told => ⟨told.app, told.rig, told.calls.trans noted.calls⟩

end Telling

end Metering
