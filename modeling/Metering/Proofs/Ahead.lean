import Metering.Proofs.Abreast
import Metering.Proofs.Accounting
/-!
A processor that has been configured ahead. A session that takes it in finds it configured and does
at once what it would do on being told. A processor that has not begun its life is configured when
the session takes it in, and the session is told like everybody else. Both end alike.
-/

namespace Metering

variable {S K ι α : Type}

/-- What is left of a world when the application has gone on to another state and the entries are
written down. -/
def World.wrote (w : World S) (s : S) (entries : List Entry) : World S :=
  { w with app := s, journal := entries ++ w.journal }

def World.fit (w : World S) (e : LevelEffect) : World S :=
  { w with rig := { w.rig with effects := w.rig.effects ++ [e] } }

/-- A processor has configured and is about to tell it. -/
def World.configured (w : World S) (p : ProcessorId) (x : Processor) : World S :=
  (((w.move p .configuring).record (.notice (.processor x.name (.configured x.tracks.length)))).move
    p .configured).record (.announced p .configured)

/-- What is written down when a processor configures. -/
def Processor.configuring (x : Processor) (p : ProcessorId) : List Entry :=
  [.announced p .configured, .moved p .configured,
    .notice (.processor x.name (.configured x.tracks.length)), .moved p .configuring]

/-- What becomes of the application's state when an event is told to watchers, and what is written
down meanwhile. -/
def Application.tell (app : Application S) (p : ProcessorId) (e : Event) :
    List Subscriber → S → S × List Entry
  | .watcher x :: rest, s =>
    match (app.event x p e).act s with
    | some ((), t) =>
      let (u, entries) := app.tell p e rest t
      (u, entries ++ ((app.event x p e).lines s).map .note ++ [.told (.watcher x) p e])
    | none => (s, [])
  | _, s => (s, [])

/-- What is written down when watchers are told an event. -/
def Entry.Reports (p : ProcessorId) (e : Entry) : Prop :=
  (∃ text, e = .note text) ∨ ∃ x f, e = .told (.watcher x) p f

section Telling

variable {app : Application S} {p : ProcessorId} {e : Event} {audience : List Subscriber}

theorem Application.each_deliver (quiet : ∀ x, (app.event x p e).Quiet)
    (watched : ∀ x ∈ audience, x.isSession = false) (again : {β : Type} → Call β → Run S β)
    (w : World S) : Run.each (deliver app again p e) audience w =
      .ok ((), w.wrote (app.tell p e audience w.app).1 (app.tell p e audience w.app).2) := by
  induction audience generalizing w with
  | nil => rfl
  | cons x xs ih =>
    cases x with
    | watcher x =>
      obtain ⟨⟨⟩, t, acts⟩ := (quiet x).acts w.app
      have delivers : deliver app again p e (.watcher x) w = .ok ((),
          (w.record (.told (.watcher x) p e)).acted t ((app.event x p e).lines w.app)) :=
        Program.run_of_act again (w := w.record (.told (.watcher x) p e)) acts
      refine (Run.bind_eq delivers _).trans ?_
      rw [ih fun x member => watched x (List.mem_cons_of_mem _ member)]
      simp [Application.tell, acts, World.wrote, World.acted, World.record]
    | capture s => cases watched _ List.mem_cons_self
    | stream s k => cases watched _ List.mem_cons_self

theorem Application.tell_reports {s : S} :
    ∀ f ∈ (app.tell p e audience s).2, f.Reports p := by
  induction audience generalizing s with
  | nil => simp [Application.tell]
  | cons x xs ih =>
    cases x with
    | watcher x =>
      rw [Application.tell]
      split
      case h_1 t acts =>
        intro f member
        simp only [List.mem_append, List.mem_map, List.mem_singleton] at member
        obtain (later | ⟨text, -, rfl⟩) | rfl := member
        · exact ih f later
        · exact .inl ⟨text, rfl⟩
        · exact .inr ⟨x, e, rfl⟩
      case h_2 => simp
    | capture s => simp [Application.tell]
    | stream s k => simp [Application.tell]

/-- Who cannot tell two states apart sees the same when an event is told in them. -/
theorem Application.tell_matches {o : Standpoint S K ι} (follows : ∀ x, o.Follows (app.event x p e))
    {s t : S} (own : o.own s = o.own t) :
    o.own (app.tell p e audience s).1 = o.own (app.tell p e audience t).1 ∧
      o.Matches (app.tell p e audience s).2 (app.tell p e audience t).2 := by
  induction audience generalizing s t with
  | nil => exact ⟨own, .refl _⟩
  | cons x xs ih =>
    cases x with
    | watcher x =>
      obtain ⟨⟨⟩, s', t', first, second, own', same⟩ := follows x s t own
      obtain ⟨ends, rest⟩ := ih own'
      simp only [Application.tell, first, second]
      exact ⟨ends, (rest.append same).append (.refl _)⟩
    | capture s => exact ⟨own, .refl _⟩
    | stream s k => exact ⟨own, .refl _⟩

end Telling

/-- Configuring a processor that has not begun its life comes to the telling of it. -/
theorem configure_eq {app : Application S} {again : {β : Type} → Call β → Run S β} {w : World S}
    {p : ProcessorId} {x : Processor} (known : w.rig.processors[p]? = some x)
    (internal : x.isExternal = false) (fresh : x.phase = .unrealized) :
    configure app again p w = (do
      Run.each (deliver app again p .configured) x.subscribers
      return .ok () : Run S (Except Fault Unit)) (w.configured p x) := by
  have moves {v : World S} {y : Processor} (known : v.rig.processors[p]? = some y)
      (phase : Phase) : Run.moveTo p phase v = .ok ((), v.move p phase) :=
    Run.bind_eq (Run.processor_eq known) _
  have second : (w.move p .configuring).rig.processors[p]? = _ := World.move_processor known
  have third : ((w.move p .configuring).record (.notice (.processor x.name
      (.configured x.tracks.length)))).rig.processors[p]? = _ := second
  have last : (World.move _ p .configured).rig.processors[p]? = _ := World.move_processor third
  refine (Run.bind_eq (Run.processor_eq known) _).trans ?_
  simp only [internal, fresh, Bool.false_eq_true, if_false]
  refine (Run.bind_eq (moves known _) _).trans ?_
  refine (Run.bind_eq (m := Run.notice _) rfl _).trans ?_
  refine (Run.bind_eq (moves third _) _).trans ?_
  rw [emit, bind_assoc]
  refine (Run.bind_eq (m := Run.record _) rfl _).trans ?_
  rw [bind_assoc]
  exact Run.bind_eq (Run.processor_eq (w := w.configured p x) last) _

theorem Rig.eq {r r' : Rig} (processors : r.processors = r'.processors)
    (effects : r.effects = r'.effects) (sessions : r.sessions = r'.sessions) : r = r' := by
  cases r
  cases r'
  cases processors
  cases effects
  cases sessions
  rfl

theorem Run.each_append {β : Type} (f : β → Run S Unit) (xs ys : List β) :
    Run.each f (xs ++ ys) = (do Run.each f xs; Run.each f ys) := by
  induction xs with
  | nil => rfl
  | cons x xs ih =>
    rw [List.cons_append, Run.each, Run.each, bind_assoc, ih]

section Configuring

variable {app : Application S} {w : World S} {p : ProcessorId} {s : SessionId} {y : Processor}

def Application.configures (app : Application S) (w : World S) (p : ProcessorId) (y : Processor) :
    World S :=
  (w.configured p y).wrote (app.tell p .configured y.subscribers w.app).1
    (app.tell p .configured y.subscribers w.app).2

theorem Application.configures_rig : (app.configures w p y).rig =
    (w.modify p fun z => { z with phase := .configured }).rig := by
  refine Rig.eq ?_ rfl rfl
  change (w.configured p y).rig.processors = _
  simp only [World.configured, World.move, World.record_rig, World.modify_processors,
    List.modify_modify_eq]
  rfl

theorem Application.configures_sessions :
    (app.configures w p y).rig.sessions = w.rig.sessions := by
  rw [Application.configures_rig]
  rfl

theorem Application.configures_session {x : Session} (found : w.rig.sessions[s]? = some x) :
    (app.configures w p y).rig.sessions[s]? = some x := by
  rwa [Application.configures_sessions]

theorem Application.configures_effects :
    (app.configures w p y).rig.effects = w.rig.effects := by
  rw [Application.configures_rig]
  rfl

variable (quiet : ∀ x, (app.event x p .configured).Quiet)
variable (internal : y.isExternal = false) (fresh : y.phase = .unrealized)
variable (watched : ∀ x ∈ y.subscribers, x.isSession = false)
include quiet internal fresh watched

/-- To configure the processor leads to this world. -/
theorem configure_run (known : w.rig.processors[p]? = some y)
    (again : {β : Type} → Call β → Run S β) :
    configure app again p w = .ok (.ok (), app.configures w p y) := by
  rw [configure_eq known internal fresh]
  exact Run.bind_eq (Application.each_deliver quiet watched again (w.configured p y)) _

/-- To begin with the processor after one more has subscribed to it comes to what this one does on
being told. -/
theorem beginConfiguration_fresh {x : Subscriber} (known : w.rig.processors[p]? =
    some { y with subscribers := y.subscribers ++ [x] }) (again : {β : Type} → Call β → Run S β)
    (body : Run S Unit) : beginConfiguration app again p body w = (do
      hear app again p .configured x
      return .ok () : Run S (Except Fault Unit))
        ((app.configures w p y).record (.told x p .configured)) := by
  refine (Run.bind_eq (Run.processor_eq known) _).trans ?_
  simp only [fresh]
  rw [configure_eq known internal fresh, Run.each_append, bind_assoc]
  have told := Application.each_deliver quiet watched again (w.configured p y)
  refine (Run.bind_eq told _).trans ?_
  rw [Run.each, Run.each, deliver, bind_assoc, bind_assoc]
  exact Run.bind_eq (m := Run.record _) rfl _

end Configuring

/-- Nobody sees a difference between the worlds, and the rigs are the same. -/
structure Standpoint.Same (o : Standpoint S K ι) (u v : World S) : Prop where
  rig : u.rig = v.rig
  own : o.own u.app = o.own v.app
  journal : o.Matches u.journal v.journal

/-- The worlds are the same. The processor is not one of the application's own, and the session has
more users than one. -/
structure Standpoint.Joint (o : Standpoint S K ι) (p : ProcessorId) (s : SessionId)
    (u v : World S) : Prop extends o.Same u v where
  internal : ∀ x, u.rig.processors[p]? = some x → x.isExternal = false
  used : ∃ x, v.rig.sessions[s]? = some x ∧ 1 < x.users

/-- The comparison of worlds that are the same, or in which a session has one user more. -/
def Standpoint.compare (o : Standpoint S K ι) (p : ProcessorId) (s : SessionId) (extra : Bool)
    (u v : World S) : Comparison S K ι where
  toStandpoint := o
  told q := q = p
  asked _ := False
  processor := p
  apart := none
  used t := t = s
  more t := if t = s then extra.toNat else 0
  more_eq _ other := if_neg other
  first := u.journal
  second := v.journal

def shared (s : SessionId) : SessionId → Nat := Comparison.another (fun _ => 0) s

section Same

variable {o : Standpoint S K ι} {u v u₀ v₀ : World S} {p : ProcessorId} {s : SessionId}

/-- The session has one user more in the first run, and otherwise the worlds are the same. -/
theorem Standpoint.Joint.beside {extra : Bool} (h : o.Joint p s u v) :
    (o.compare p s extra u v).Beside (shared s)
      (u.arrange s fun x => { x with users := x.users + extra.toNat }) v := by
  obtain ⟨x, known, used⟩ := h.used
  constructor
  case processors => exact fun q _ => by rw [World.arrange_processors, h.rig]
  case apart =>
    intro _ _ differ
    cases differ
  case internal =>
    rintro q x rfl - found
    exact h.internal x found
  case effects =>
    change u.rig.effects = v.rig.effects
    rw [h.rig]
  -- The worlds share one rig, so that only the count of users has to be looked at.
  case sessions =>
    intro t
    simp only [World.arrange, List.getElem?_modify, h.rig, Standpoint.compare]
    by_cases here : s = t
    · subst here
      simp [known]
    · cases v.rig.sessions[t]? <;> simp [here, Ne.symm here]
  case users =>
    intro t y found
    by_cases here : t = s
    · obtain rfl : x = y := Option.some.inj (known.symm.trans (here ▸ found))
      exact .inr (by simpa [shared, Comparison.another, here] using used)
    · refine (Nat.eq_zero_or_pos y.users).imp (fun none => ⟨none, here⟩) fun some => ?_
      simpa [shared, Comparison.another, here] using some
  case known =>
    rintro t rfl
    rw [known]
    rfl
  case own => exact h.own
  case journal => exact ⟨[], [], rfl, rfl, .refl _, fun e member => by cases member⟩

theorem Comparison.Beside.joint (h : (o.compare p s false u₀ v₀).Beside (shared s) u v)
    (same : o.Matches u₀.journal v₀.journal) : o.Joint p s u v := by
  obtain ⟨a, b, first, second, matched, -⟩ := h.journal
  obtain ⟨x, known⟩ := Option.isSome_iff_exists.mp (h.known s rfl)
  refine ⟨⟨?_, h.own, ?_⟩, fun x => h.internal p x rfl nofun, x, known, ?_⟩
  · have processors := List.ext_getElem? fun q => h.processors q fun _ => rfl
    have sessions : u.rig.sessions = v.rig.sessions := List.ext_getElem? fun t => by
      rw [h.sessions]
      have none : (o.compare p s false u₀ v₀).more t = 0 := ite_self 0
      cases v.rig.sessions[t]? <;> simp [none]
    exact Rig.eq processors h.effects sessions
  · rw [first, second]
    exact matched.append same
  · obtain ⟨-, other⟩ | used := h.users s x known
    · exact (other rfl).elim
    · simpa [shared, Comparison.another] using used

/-- What keeps two runs abreast ends alike in worlds that are the same. -/
theorem Standpoint.Joint.alike (h : o.Joint p s u v) {m : Run S α}
    (abreast : (o.compare p s false u v).Abreast m) : Alike (o.Joint p s) (m u) (m v) := by
  have beside : (o.compare p s false u v).Beside (shared s) (u.arrange s id) v := h.beside
  rw [World.arrange, List.modify_id] at beside
  exact (abreast _ u v beside).mono fun _ _ next => next.joint h.journal

variable {app : Application S} {depth : Nat}

theorem releaseSession_eq {x : Session} (known : u.rig.sessions[s]? = some x) (many : x.users ≠ 1)
    (again : {β : Type} → Call β → Run S β) : releaseSession app again s u =
      .ok ((), u.arrange s fun y => { y with users := x.users - 1 }) := by
  refine (Run.bind_eq (Run.session_eq known) _).trans ?_
  rw [if_neg many]
  rfl

/-- The additional user of the session gives it up again. -/
theorem Standpoint.Joint.leaves (same : o.Matches u₀.journal v₀.journal)
    (h : (o.compare p s true u₀ v₀).Beside (shared s) u v)
    (again : {β : Type} → Call β → Run S β) :
    ∃ w, releaseSession app again s u = .ok ((), w) ∧ o.Joint p s w v := by
  obtain ⟨y, known⟩ := Option.isSome_iff_exists.mp (h.known s rfl)
  have one : u.rig.sessions[s]? = some { y with users := y.users + 1 } := by
    rw [h.sessions, known]
    simp [Standpoint.compare]
  have many : y.users + 1 ≠ 1 := by
    obtain ⟨-, other⟩ | some := h.users s y known
    · exact (other rfl).elim
    · omega
  refine ⟨_, releaseSession_eq one many again, Comparison.Beside.joint ?_ same⟩
  refine { h with sessions := fun t => ?_ }
  simp only [World.arrange, List.getElem?_modify, h.sessions, Standpoint.compare]
  by_cases here : s = t
  · subst here
    simp [known]
  · cases v.rig.sessions[t]? <;> simp [here, Ne.symm here]

/-- What a session does about a processor. It leaves two worlds as different as they were if they do
not differ in a processor, and it comes to no end if it may not call. -/
structure Standpoint.Carries (o : Standpoint S K ι) (app : Application S) (depth : Nat)
    (p : ProcessorId) (body : Run S Unit) : Prop where
  abreast : ∀ c : Comparison S K ι, c.toStandpoint = o → (c.told = fun q => q = p) →
    (c.asked = fun _ => False) → c.apart = none → c.Abreast body
  stuck : depth = 0 → ∀ w, Ensures body w fun _ _ => False

/-- To use a session in addition, while it is in use, makes no difference. -/
theorem Standpoint.Joint.use (h : o.Joint p s u v) {body : Run S Unit}
    (carries : o.Carries app depth p body) :
    Alike (o.Joint p s) (whileUsed (perform app depth) s body u) (body v) := by
  obtain ⟨x, known, used⟩ := h.used
  have first : whileUsed (perform app depth) s body u = (do
      body
      perform app depth (.releaseSession s)) (u.arrange s fun y =>
        { y with users := y.users + 1 }) := by
    refine (Run.bind_eq (Run.session_eq (h.rig ▸ known)) _).trans ?_
    rw [if_pos (Nat.zero_lt_of_lt used)]
    rfl
  have second : body v = (body >>= fun _ => pure ()) v := (congrFun (bind_pure body) v).symm
  rw [first, second]
  cases depth with
  | zero =>
    apply Alike.stuck
    · exact ensures_bind.mpr ((carries.stuck rfl _).mono fun _ _ => False.elim)
    · exact ensures_bind.mpr ((carries.stuck rfl _).mono fun _ _ => False.elim)
  | succ depth =>
    have abreast : (o.compare p s true u v).Abreast body :=
      carries.abreast _ rfl rfl rfl rfl
    refine (abreast _ _ _ h.beside).bind fun _ u' v' next => ?_
    obtain ⟨w, released, joint⟩ : ∃ w, perform app (depth + 1) (.releaseSession s) u' =
      .ok ((), w) ∧ o.Joint p s w v' := Standpoint.Joint.leaves h.journal next (perform app depth)
    rw [released]
    exact ⟨rfl, joint⟩

theorem subscribe_eq {w : World S} {p : ProcessorId} {y : Processor}
    (known : w.rig.processors[p]? = some y) (x : Subscriber) :
    subscribe p x w = .ok ((), w.subscribe p x) :=
  Run.bind_eq (Run.processor_eq known) _

/-- In the second world the processor has been configured and its watchers have been told. In the
first it has not begun its life. -/
structure Standpoint.Ahead (o : Standpoint S K ι) (app : Application S) (p : ProcessorId)
    (y : Processor) (u v : World S) : Prop where
  known : u.rig.processors[p]? = some y
  rig : v.rig = (u.modify p fun z => { z with phase := .configured }).rig
  own : o.own (app.tell p .configured y.subscribers u.app).1 = o.own v.app
  journal : o.Matches ((app.tell p .configured y.subscribers u.app).2 ++ y.configuring p ++
    u.journal) v.journal

theorem Standpoint.Ahead.of_configures {y : Processor} (known : u.rig.processors[p]? = some y) :
    o.Ahead app p y u (app.configures u p y) where
  known
  rig := Application.configures_rig
  own := rfl
  journal i := by
    rw [List.append_assoc]
    rfl

theorem Standpoint.Ahead.arrange {p : ProcessorId} {y : Processor} (h : o.Ahead app p y u v)
    (s : SessionId) (f : Session → Session) :
    o.Ahead app p y (u.arrange s f) (v.arrange s f) where
  known := h.known
  rig := by
    simp only [World.arrange, h.rig]
    rfl
  own := h.own
  journal := h.journal

theorem Standpoint.Ahead.fit {p : ProcessorId} {y : Processor} (h : o.Ahead app p y u v)
    (e : LevelEffect) : o.Ahead app p y (u.fit e) (v.fit e) where
  known := h.known
  rig := by
    simp only [World.fit, h.rig]
    rfl
  own := h.own
  journal := h.journal

/-- Nobody sees what the subscriber is told, or that it subscribed. -/
def Standpoint.Misses (o : Standpoint S K ι) (p : ProcessorId) (x : Subscriber) : Prop :=
  ∀ i, o.view i (.subscribed p x) = false ∧ o.view i (.told x p .configured) = false

section TakingIn

variable {x : Subscriber} {body : Run S Unit} {y : Processor}

/-- The worlds when the one processor has told that it is configured and the other would not have
told it again. -/
theorem Standpoint.Ahead.meets (h : o.Ahead app p y u v) (misses : o.Misses p x) :
    o.Same ((app.configures (u.subscribe p x) p y).record (.told x p .configured))
      (v.subscribe p x) := by
  refine ⟨?_, h.own, fun i => ?_⟩
  · refine Rig.eq ?_ (congrArg Rig.effects h.rig).symm (congrArg Rig.sessions h.rig).symm
    rw [World.record_rig, Application.configures_rig]
    simp only [h.rig, World.subscribe, World.record_rig, World.modify_processors,
      List.modify_modify_eq]
    rfl
  · obtain ⟨subscribed, told⟩ := misses i
    have same := h.journal i
    simp only [List.filter_append] at same
    change List.filter (o.view i) (.told x p .configured :: (_ ++ (y.configuring p ++
      .subscribed p x :: u.journal))) = List.filter (o.view i) (.subscribed p x :: v.journal)
    simp only [List.filter_cons, List.filter_append, subscribed, told, ← same]
    simp [show (u.subscribe p x).app = u.app from rfl]

variable (carries : o.Carries app depth p body)
variable (hears : hear app (perform app depth) p .configured x =
  whileUsed (perform app depth) s body)
variable (quiet : ∀ w, (app.event w p .configured).Quiet)
variable (internal : y.isExternal = false) (fresh : y.phase = .unrealized)
variable (watched : ∀ x ∈ y.subscribers, x.isSession = false)
include carries hears quiet internal fresh watched

/-- A processor that has not begun its life is taken in like one that has been configured. -/
theorem Standpoint.Ahead.takeIn (h : o.Ahead app p y u v) (misses : o.Misses p x)
    (used : ∃ z, v.rig.sessions[s]? = some z ∧ 1 < z.users)
    (failed : Fault → SessionNotice) {undo : Session → Session}
    (others : ∀ z k, undo { z with users := k } = { undo z with users := k })
    (users : ∀ z, (undo z).users = z.users) :
    Alike (o.Joint p s) (takeIn app (perform app depth) s p x body failed undo u)
      (takeIn app (perform app depth) s p x body failed undo v) := by
  have known : v.rig.processors[p]? = some { y with phase := .configured } := by
    rw [h.rig]
    exact World.modify_processor h.known
  have here : (u.subscribe p x).rig.processors[p]? =
    some { y with subscribers := y.subscribers ++ [x] } := World.modify_processor h.known
  have there : (v.subscribe p x).rig.processors[p]? =
    some { y with phase := .configured, subscribers := y.subscribers ++ [x] } :=
    World.modify_processor known
  have first := beginConfiguration_fresh quiet internal fresh watched here (perform app depth) body
  have second : beginConfiguration app (perform app depth) p body (v.subscribe p x) =
      (do
        body
        return .ok () : Run S (Except Fault Unit)) (v.subscribe p x) :=
    Run.bind_eq (Run.processor_eq there) _
  -- The telling makes up for what the first world was behind. What is left is that its session acts
  -- while it is told, with one user more.
  have same := h.meets misses
  have joint : o.Joint p s _ _ := ⟨same, fun z found => by
    rw [same.rig, there] at found
    cases found
    exact internal, used⟩
  have begins : Alike (o.Joint p s)
      (beginConfiguration app (perform app depth) p body (u.subscribe p x))
      (beginConfiguration app (perform app depth) p body (v.subscribe p x)) := by
    rw [first, second, hears]
    exact (joint.use carries).bind fun _ _ _ next => ⟨rfl, next⟩
  rw [Metering.takeIn, Run.bind_eq (subscribe_eq h.known x), Run.bind_eq (subscribe_eq known x)]
  refine begins.bind fun r u' v' joint => joint.alike ?_
  cases r with
  | ok => exact Comparison.Abreast.pure _
  | error f =>
    exact (Comparison.Abreast.sessionNotice s _).bind fun _ =>
      (Comparison.Abreast.arrange s others users).bind fun _ => Comparison.Abreast.pure _

end TakingIn

abbrev Session.more (x : Session) : Session := { x with users := x.users + 1 }

/-- Who calls for itself is not the last to use a session that is in use. -/
theorem Session.many_more {x : Session} (used : 0 < x.users) : x.more.users ≠ 1 :=
  Nat.ne_of_gt (Nat.succ_lt_succ used)

/-- What a session does for a caller ends alike if what it does itself does. -/
theorem Standpoint.during (body : Run S α)
    (alike : Alike (o.Joint p s) (body (u.arrange s Session.more))
      (body (v.arrange s Session.more))) :
    Alike o.Same (duringUse app (perform app depth) s body u)
      (duringUse app (perform app depth) s body v) := by
  have enters (w : World S) : duringUse app (perform app depth) s body w =
      (body >>= fun a => do releaseSession app (perform app depth) s; return a)
        (w.arrange s Session.more) := Run.bind_eq rfl _
  rw [enters, enters]
  refine alike.bind fun a u' v' joint => ?_
  obtain ⟨x, known, used⟩ := joint.used
  have many : x.users ≠ 1 := Nat.ne_of_gt used
  rw [Run.bind_eq (releaseSession_eq (joint.rig ▸ known) many _),
    Run.bind_eq (releaseSession_eq known many _)]
  refine ⟨rfl, ?_, joint.own, joint.journal⟩
  simp only [World.arrange, joint.rig]

end Same

end Metering
