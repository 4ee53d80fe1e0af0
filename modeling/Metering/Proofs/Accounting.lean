import Metering.Proofs.Custody
/-!
Every operation of a session leaves its account in order, however the listeners that are called on
the way operate the session themselves. Each operation is followed from step to step, and what it
owes at each step is part of the account.
-/

namespace Metering

variable {S α : Type} {app : Application S} {again : {β : Type} → Call β → Run S β}

namespace Session

variable {x : Session} {k l : Ssrc} {stream : Stream}

theorem stream?_eq_none : x.stream? k = none ↔ ¬x.hasStream k = true := by
  rw [stream?, List.lookup_eq_none_iff, hasStream, List.any_eq_true]
  grind

theorem lookup_cons (es : List (Ssrc × Stream)) : ((k, stream) :: es).lookup l =
    if l = k then some stream else es.lookup l := by
  rw [List.lookup_cons]
  by_cases same : l = k
  · rw [if_pos same, beq_iff_eq.mpr same]
  · rw [if_neg same, beq_eq_false_iff_ne.mpr same]

theorem stream?_addStream : (x.addStream k stream).stream? l =
    (x.stream? l).or (if l = k then some stream else none) := by
  rw [stream?, addStream, List.lookup_append, lookup_cons, List.lookup_nil]
  rfl

theorem stream?_removeStream :
    (x.removeStream k).stream? l = if l = k then none else x.stream? l := by
  simp only [stream?, removeStream]
  induction x.streams with
  | nil => simp
  | cons e es ih => grind [lookup_cons]

theorem mem_of_stream? (found : x.stream? k = some stream) : (k, stream) ∈ x.streams := by
  rw [stream?] at found
  generalize x.streams = es at found
  induction es with
  | nil => cases found
  | cons e es ih => grind [lookup_cons]

end Session

namespace Debt

variable (d : Debt)

/-- A session has given more processors away, which it is to close. -/
def leave (gone : Subscriber → ProcessorId → Prop) : Debt :=
  { d with leaving := fun x p => d.leaving x p ∨ gone x p }

/-- One processor more stands in for capture. -/
def come (s : SessionId) (p : ProcessorId) : Debt :=
  { d with coming := fun t q => d.coming t q ∨ t = s ∧ p = q }

/-- One processor more is to be configured. -/
def freshen (p : ProcessorId) : Debt := { d with fresh := fun q => d.fresh q ∨ q = p }

end Debt

def World.subscribe (w : World S) (p : ProcessorId) (x : Subscriber) : World S :=
  (w.modify p fun y => { y with subscribers := y.subscribers ++ [x] }).record (.subscribed p x)

/-- How a session takes a processor in. It subscribes and configures the processor, and `body` is
what it does about a configured processor. If that fails it writes it down and makes undone what it
did before. -/
def takeIn (app : Application S) (again : {β : Type} → Call β → Run S β) (s : SessionId)
    (p : ProcessorId) (x : Subscriber) (body : Run S Unit) (failed : Fault → SessionNotice)
    (undo : Session → Session) : Run S (Except Fault Unit) := do
  subscribe p x
  let r ← beginConfiguration app again p body
  if let .error f := r then
    sessionNotice s (failed f)
    Run.modifySession s undo
  return r

abbrev takeCapture (app : Application S) (again : {β : Type} → Call β → Run S β) (s : SessionId)
    (p : ProcessorId) : Run S (Except Fault Unit) :=
  takeIn app again s p (.capture s) (captureUpdate app again s p .configured)
    .captureNotConfigured fun x => { x with capture := none }

abbrev takeStream (app : Application S) (again : {β : Type} → Call β → Run S β) (s : SessionId)
    (k : Ssrc) (p : ProcessorId) : Run S (Except Fault Unit) :=
  takeIn app again s p (.stream s k) (streamUpdate app again s k p .configured)
    (.streamNotConfigured k) fun x => x.removeStream k

/-- A session gives all of its streams away. -/
def drain (app : Application S) (again : {β : Type} → Call β → Run S β) (s : SessionId)
    (e : EffectId) (n : SessionNotice) : Run S Unit := do
  let streams := (← Run.session s).streams
  Run.modifySession s fun x => { x with streams := [] }
  Run.each (fun e => closeStream app again e.2) (app.arranged (← get).app streams)
  resetEffect e
  sessionNotice s n

section Change

variable {w : World S} {s t : SessionId} {k : Ssrc} {p : ProcessorId} {x : Subscriber}
variable {f : Session → Session}

@[simp]
theorem World.subscribe_journal :
    (w.subscribe p x).journal = .subscribed p x :: w.journal := rfl

@[simp]
theorem World.subscribe_slot : (w.subscribe p x).rig.slot s = w.rig.slot s := rfl

@[simp]
theorem World.subscribe_stored :
    (w.subscribe p x).rig.stored s k = w.rig.stored s k := rfl

theorem World.arrange_slot (same : ∀ y, (f y).capture = y.capture) :
    (w.arrange s f).rig.slot t = w.rig.slot t := Rig.slot_modify same

theorem World.arrange_slot_ne (other : s ≠ t) : (w.arrange s f).rig.slot t = w.rig.slot t :=
  Rig.slot_modify_ne other

theorem World.arrange_slot_self {y : Session} (known : w.rig.sessions[s]? = some y) :
    (w.arrange s f).rig.slot s = (f y).capture := Rig.slot_of (World.arrange_session known)

theorem World.arrange_stored_self {y : Session} (known : w.rig.sessions[s]? = some y) :
    (w.arrange s f).rig.stored s k = ((f y).stream? k).map (·.processor) :=
  Rig.stored_of (World.arrange_session known)

theorem World.arrange_slot_none (empty : ∀ y, (f y).capture = none) :
    (w.arrange s f).rig.slot s = none := by
  simp only [World.arrange, Rig.slot, List.getElem?_modify_eq]
  cases w.rig.sessions[s]? <;> simp [empty]

theorem World.arrange_stored (same : ∀ y, (f y).streams = y.streams) :
    (w.arrange s f).rig.stored t k = w.rig.stored t k := Rig.stored_modify same

theorem World.arrange_stored_ne (other : s ≠ t) :
    (w.arrange s f).rig.stored t k = w.rig.stored t k := Rig.stored_modify_ne other

section Undone

variable {u v : World S} {stream : Stream}
variable (same : u.rig.sessions = (v.arrange s fun y => y.addStream k stream).rig.sessions)
include same

/-- A stream that is added and removed again leaves nothing behind. -/
theorem World.stored_undone {y : Session} (known : v.rig.sessions[s]? = some y)
    (absent : ¬y.hasStream k = true) (t : SessionId) (l : Ssrc) :
    (u.arrange s fun y => y.removeStream k).rig.stored t l = v.rig.stored t l := by
  by_cases here : s = t
  · subst here
    have added : u.rig.sessions[s]? = some (y.addStream k stream) := by
      rw [same, World.arrange_session known]
    rw [World.arrange_stored_self added, Rig.stored_of known, Session.stream?_removeStream,
      Session.stream?_addStream]
    split
    case isTrue gone => rw [gone, Session.stream?_eq_none.mpr absent]
    case isFalse => simp
  · rw [World.arrange_stored_ne here, Rig.stored, same]
    exact World.arrange_stored_ne here

theorem World.slot_undone (t : SessionId) :
    (u.arrange s fun y => y.removeStream k).rig.slot t = v.rig.slot t := by
  rw [World.arrange_slot (by intro _; rfl), Rig.slot, same]
  exact World.arrange_slot (by intro _; rfl)

end Undone

theorem ensures_sessionNotice {n : SessionNotice} {Q : Unit → World S → Prop} :
    Ensures (sessionNotice s n) w Q ↔ ∀ y, w.rig.sessions[s]? = some y →
      Q () (w.record (.notice (.session y.label n))) := by
  simp [sessionNotice]

theorem ensures_subscribe {Q : Unit → World S → Prop} : Ensures (subscribe p x) w Q ↔
    ∀ y, w.rig.processors[p]? = some y → Q () (w.subscribe p x) := by
  simp [Metering.subscribe, World.subscribe]

end Change

theorem Run.moveTo_ok {p : ProcessorId} {phase : Phase} {v w : World S} {a : Unit}
    (run : Run.moveTo p phase v = .ok (a, w)) : w = v.move p phase := by
  have moves : Ensures (Run.moveTo p phase) v fun _ w => w = v.move p phase :=
    ensures_moveTo.mpr fun _ _ => rfl
  exact moves a w run

theorem acts_ne_nil {p : ProcessorId} {journal : List Entry}
    (h : lastPhase (acts p journal) ≠ .unrealized) : acts p journal ≠ [] := by
  intro none
  rw [none] at h
  exact h rfl

/-- The journal knows whether a processor has realized. -/
theorem World.Recorded.lastPhase {w : World S} {p : ProcessorId} (h : w.Recorded p)
    (internal : w.rig.isExternal p = false) {y : Processor}
    (known : w.rig.processors[p]? = some y) : lastPhase (acts p w.journal) = y.phase :=
  (h.now internal).symm.trans (Rig.phase_of known)

theorem Lasts.notice {w : World S} (n : Notice) : Lasts w (w.record (.notice n)) :=
  Lasts.plain.notice n w () _ rfl

theorem Lasts.arrange {w : World S} (s : SessionId) (f : Session → Session) :
    Lasts w (w.arrange s f) := Lasts.plain.sessions w _

theorem Lasts.subscribe {w : World S} {p : ProcessorId} {y : Processor}
    (known : w.rig.processors[p]? = some y) (x : Subscriber) : Lasts w (w.subscribe p x) :=
  ensures_subscribe.mp (Lasts.plain.subscribe p x w) y known

theorem Lasts.closed {v w : World S} (h : Lasts v w) {p : ProcessorId}
    (closed : HasClosed p v.journal) : HasClosed p w.journal := closed.mono h.journal

theorem Lasts.moved {v w : World S} (h : Lasts v w) {p : ProcessorId}
    (moved : acts p v.journal ≠ []) : acts p w.journal ≠ [] := fun none =>
  moved (List.prefix_nil.mp (none ▸ acts_of_suffix h.journal))

/-- Debts are paid when a processor is closed, taken in or configured. -/
theorem World.Accounted.settle {w : World S} {d d' : Debt} (h : w.Accounted d)
    (leaving : ∀ x p, d.leaving x p → HasClosed p w.journal ∨ d'.leaving x p)
    (coming : ∀ s p, d.coming s p → p ∈ held s w.journal ∨ HasClosed p w.journal ∨ d'.coming s p)
    (fresh : ∀ p, d.fresh p → acts p w.journal ≠ [] ∨ d'.fresh p) : w.Accounted d' where
  capture s p member := by
    obtain here | closed | away := h.capture s p member
    · exact .inl here
    · exact .inr (.inl closed)
    · exact .inr (leaving _ p away)
  slot s p here := by
    obtain member | closed | comes := h.slot s p here
    · exact .inl member
    · exact .inr (.inl closed)
    · exact coming s p comes
  stream s k p taken := by
    obtain here | closed | away := h.stream s k p taken
    · exact .inl here
    · exact .inr (.inl closed)
    · exact .inr (leaving _ p away)
  moved p x session joined := by
    obtain moved | isFresh := h.moved p x session joined
    · exact .inl moved
    · exact fresh p isFresh

/-- More may be owed than is. -/
theorem World.Accounted.leave {w : World S} {d : Debt} (h : w.Accounted d)
    (gone : Subscriber → ProcessorId → Prop) : w.Accounted (d.leave gone) :=
  h.settle (fun _ _ away => .inr (.inl away)) (fun _ _ comes => .inr (.inr comes))
    fun _ isFresh => .inr isFresh

theorem World.Accounted.come {w : World S} {d : Debt} (h : w.Accounted d) (s : SessionId)
    (p : ProcessorId) : w.Accounted (d.come s p) :=
  h.settle (fun _ _ away => .inr away) (fun _ _ comes => .inr (.inr (.inl comes)))
    fun _ isFresh => .inr isFresh

/-- What was given away is closed. -/
theorem World.Accounted.paid {w : World S} {d : Debt} {gone : Subscriber → ProcessorId → Prop}
    (h : w.Accounted (d.leave gone)) (closed : ∀ x p, gone x p → HasClosed p w.journal) :
    w.Accounted d := by
  refine h.settle ?_ (fun _ _ comes => .inr (.inr comes)) fun _ => .inr
  rintro x p (away | given)
  · exact .inr away
  · exact .inl (closed x p given)

/-- What was to be configured is configured. -/
theorem World.Accounted.configured {w : World S} {d : Debt} {p : ProcessorId}
    (h : w.Accounted (d.freshen p)) (moved : acts p w.journal ≠ []) : w.Accounted d := by
  refine h.settle (fun _ _ => .inr) (fun _ _ comes => .inr (.inr comes)) ?_
  rintro q (isFresh | rfl)
  · exact .inr isFresh
  · exact .inl moved

/-- A session is changed so that it owes an account of what is no longer, and of what is new, in
its places. -/
theorem World.Accounted.arrange {w : World S} {d : Debt} (h : w.Accounted d) {s : SessionId}
    {f : Session → Session}
    (capture : ∀ q, w.rig.slot s = some q →
      (w.arrange s f).rig.slot s = some q ∨ d.leaving (.capture s) q)
    (slot : ∀ q, (w.arrange s f).rig.slot s = some q → w.rig.slot s = some q ∨ d.coming s q)
    (stream : ∀ k q, w.rig.stored s k = some q →
      (w.arrange s f).rig.stored s k = some q ∨ d.leaving (.stream s k) q) :
    (w.arrange s f).Accounted d where
  capture t q member := by
    by_cases same : s = t
    · subst same
      obtain here | closed | away := h.capture _ q member
      · exact (capture q here).imp_right .inr
      · exact .inr (.inl closed)
      · exact .inr (.inr away)
    · rw [World.arrange_slot_ne same]
      exact h.capture t q member
  slot t q here := by
    by_cases same : s = t
    · subst same
      obtain before | comes := slot q here
      · exact h.slot _ q before
      · exact .inr (.inr comes)
    · rw [World.arrange_slot_ne same] at here
      exact h.slot t q here
  stream t k q taken := by
    by_cases same : s = t
    · subst same
      obtain here | closed | away := h.stream _ k q taken
      · exact (stream k q here).imp_right .inr
      · exact .inr (.inl closed)
      · exact .inr (.inr away)
    · rw [World.arrange_stored_ne same]
      exact h.stream t k q taken
  moved := h.moved

/-- A session gives away what it has in use for capture. Until that is closed, it owes an account of
it. -/
theorem World.Accounted.vacate {w : World S} {d : Debt} (h : w.Accounted d) {s : SessionId}
    {f : Session → Session} (streams : ∀ y, (f y).streams = y.streams)
    (slot : ∀ q, (w.arrange s f).rig.slot s = some q → d.coming s q) :
    (w.arrange s f).Accounted (d.leave fun y q => y = .capture s ∧ w.rig.slot s = some q) := by
  refine (h.leave _).arrange (fun q before => ?_) (fun q after => ?_) fun k q => ?_
  · exact .inr (.inr ⟨rfl, before⟩)
  · exact .inr (slot q after)
  · rw [World.arrange_stored streams]
    exact .inl

/-- A session changes its streams only. -/
theorem World.Accounted.restream {w : World S} {d : Debt} (h : w.Accounted d) {s : SessionId}
    {f : Session → Session} (same : ∀ y, (f y).capture = y.capture)
    (stream : ∀ k q, w.rig.stored s k = some q →
      (w.arrange s f).rig.stored s k = some q ∨ d.leaving (.stream s k) q) :
    (w.arrange s f).Accounted d := by
  refine h.arrange (fun q before => .inl ?_) (fun q after => .inl ?_) stream
  · rwa [World.arrange_slot same]
  · rwa [World.arrange_slot same] at after

/-- A stream that is added takes nobody else's place. -/
theorem World.Accounted.addStream {w : World S} {d : Debt} (h : w.Accounted d) {s : SessionId}
    {x : Session} (known : w.rig.sessions[s]? = some x) {k : Ssrc} {stream : Stream} :
    (w.arrange s fun x => x.addStream k stream).Accounted d := by
  refine h.restream (fun _ => rfl) fun l q before => .inl ?_
  rw [Rig.stored_of known] at before
  rw [World.arrange_stored_self known, Session.stream?_addStream]
  cases found : x.stream? l with
  | none => simp [found] at before
  | some st => simpa [found] using before

section Entries

variable {w : World S} {d : Debt} {s : SessionId} {k : Ssrc} {p q : ProcessorId} {x : Subscriber}
variable {journal : List Entry}

@[simp]
theorem hasClosed_subscribed :
    HasClosed q (.subscribed p x :: journal) ↔ HasClosed q journal := by
  simp [HasClosed]

@[simp]
theorem hasClosed_notice {n : Notice} :
    HasClosed q (.notice n :: journal) ↔ HasClosed q journal := by
  simp [HasClosed]

/-- What has to be configured after a subscription. -/
theorem World.Accounted.moved_subscribe (h : w.Accounted d) (y : Subscriber)
    (session : y.isSession = true) (joined : .subscribed q y ∈ (w.subscribe p x).journal) :
    acts q (w.subscribe p x).journal ≠ [] ∨ (d.freshen p).fresh q := by
  obtain same | before := List.mem_cons.mp joined
  · obtain ⟨rfl, -⟩ := Entry.subscribed.inj same
    exact .inr (.inr rfl)
  · obtain moved | isFresh := h.moved q y session before
    · exact .inl (by simpa using moved)
    · exact .inr (.inl isFresh)

/-- A processor that is turned away was configured by the time it subscribed. -/
theorem World.Accounted.moved_refuse (h : w.Accounted d) (moved : acts p w.journal ≠ [])
    (y : Subscriber) (session : y.isSession = true) {n : Notice}
    (joined : .subscribed q y ∈ .notice n :: (w.subscribe p x).journal) :
    acts q (.notice n :: (w.subscribe p x).journal) ≠ [] ∨ d.fresh q := by
  have before : acts q (w.subscribe p x).journal ≠ [] ∨ (d.freshen p).fresh q := by
    obtain same | joined := List.mem_cons.mp joined
    · cases same
    · exact h.moved_subscribe y session joined
  obtain moves | isFresh | rfl := before
  · exact .inl (by simpa using moves)
  · exact .inr isFresh
  · exact .inl (by simpa using moved)

/-- The processor that stands in for capture is taken in. -/
theorem World.Accounted.take (h : w.Accounted (d.come s p))
    (here : w.rig.slot s = some p ∨ HasClosed p w.journal) (taken : early p w.journal = true) :
    (w.subscribe p (.capture s)).Accounted (d.freshen p) where
  capture t q member := by
    simp only [World.subscribe_journal, held, taken, if_true] at member
    simp only [World.subscribe_slot, World.subscribe_journal, hasClosed_subscribed]
    split at member
    case isTrue same =>
      subst same
      obtain rfl | before := List.mem_cons.mp member
      · exact here.imp_right .inl
      · exact h.capture _ q before
    case isFalse => exact h.capture t q member
  slot t q slot := by
    simp only [World.subscribe_journal, held, taken, if_true, hasClosed_subscribed]
    obtain member | closed | comes | ⟨rfl, rfl⟩ := h.slot t q slot
    · refine .inl ?_
      split
      · exact List.mem_cons_of_mem _ member
      · exact member
    · exact .inr (.inl closed)
    · exact .inr (.inr comes)
    · simp
  stream t k q taken := by
    simp only [World.subscribe_journal, hasClosed_subscribed, World.subscribe_stored]
    obtain ⟨same, -⟩ | before := taken_cons.mp taken
    · cases same
    · exact h.stream t k q before
  moved q y := h.moved_subscribe y

/-- A processor that is turned away leaves nothing in use for capture. -/
theorem World.Accounted.refuse (h : w.Accounted (d.come s p)) (late : early p w.journal = false)
    (moved : acts p w.journal ≠ []) (n : Notice) :
    (((w.subscribe p (.capture s)).record (.notice n)).arrange s fun x =>
      { x with capture := none }).Accounted d where
  -- Only the slot of this session is different: by the journal it holds nothing after a processor
  -- that came late, and so it is in the rig.
  capture t q member := by
    simp only [World.arrange_journal, World.record_journal, World.subscribe_journal, held, late,
      hasClosed_notice, hasClosed_subscribed] at member ⊢
    split at member
    case isTrue => cases member
    case isFalse other =>
      rw [World.arrange_slot_ne other]
      exact h.capture t q member
  slot t q slot := by
    simp only [World.arrange_journal, World.record_journal, World.subscribe_journal, held, late,
      hasClosed_notice, hasClosed_subscribed]
    by_cases same : t = s
    · subst same
      rw [World.arrange_slot_none fun _ => rfl] at slot
      cases slot
    · rw [World.arrange_slot_ne (Ne.symm same)] at slot
      rw [if_neg (Ne.symm same)]
      obtain member | closed | comes | ⟨rfl, -⟩ := h.slot t q slot
      · exact .inl member
      · exact .inr (.inl closed)
      · exact .inr (.inr comes)
      · exact absurd rfl same
  stream t k q taken := by
    simp only [World.arrange_journal, World.record_journal, World.subscribe_journal,
      hasClosed_notice, hasClosed_subscribed]
    rw [World.arrange_stored (by intro _; rfl)]
    obtain ⟨same, -⟩ | later := taken_cons.mp taken
    · cases same
    obtain ⟨same, -⟩ | before := taken_cons.mp later
    · cases same
    · exact h.stream t k q before
  moved _ y session joined := h.moved_refuse moved y session joined

/-- A processor is taken in for a stream that has it already. -/
theorem World.Accounted.takeStream (h : w.Accounted d)
    (here : w.rig.stored s k = some p ∨ HasClosed p w.journal) :
    (w.subscribe p (.stream s k)).Accounted (d.freshen p) where
  capture t q member := by
    simp only [World.subscribe_journal, held, hasClosed_subscribed] at member ⊢
    exact h.capture t q member
  slot t q slot := by
    simp only [World.subscribe_journal, held, hasClosed_subscribed]
    exact h.slot t q slot
  stream t l q taken := by
    simp only [World.subscribe_journal, hasClosed_subscribed, World.subscribe_stored]
    obtain ⟨same, -⟩ | before := taken_cons.mp taken
    · cases same
      exact here.imp_right .inl
    · exact h.stream t l q before
  moved q y := h.moved_subscribe y

/-- A processor that is turned away leaves the streams as they were before. -/
theorem World.Accounted.refuseStream (h : w.Accounted d) (late : early p w.journal = false)
    (moved : acts p w.journal ≠ []) {w' : World S} {n : Notice}
    (journal : w'.journal = .notice n :: .subscribed p (.stream s k) :: w.journal)
    (slot : ∀ t, w'.rig.slot t = w.rig.slot t)
    (stored : ∀ t l, w'.rig.stored t l = w.rig.stored t l) : w'.Accounted d where
  capture t q member := by
    simp only [journal, held, hasClosed_notice, hasClosed_subscribed, slot] at member ⊢
    exact h.capture t q member
  slot t q here := by
    simp only [journal, held, hasClosed_notice, hasClosed_subscribed]
    exact h.slot t q ((slot t).symm.trans here)
  stream t l q taken := by
    simp only [journal, hasClosed_notice, hasClosed_subscribed, stored]
    obtain ⟨same, -⟩ | later := taken_cons.mp (journal ▸ taken)
    · cases same
    obtain ⟨same, isEarly⟩ | before := taken_cons.mp later
    · cases same
      exact absurd isEarly (by simp [late])
    · exact h.stream t l q before
  moved q y session joined := by
    rw [journal] at joined ⊢
    exact h.moved_refuse moved y session joined

end Entries

namespace Audits

variable {u v w : World S}

theorem refl (w : World S) : Audits w w := ⟨fun _ _ => .inl, fun _ => id⟩

theorem trans (first : Audits u v) (lasts : Lasts v w) (second : Audits v w) : Audits u w where
  slot s p here := by
    obtain still | closed := first.slot s p here
    · exact second.slot s p still
    · exact .inr (lasts.closed closed)
  accounted d h := second.accounted d (first.accounted d h)

/-- Nothing is asked of a session that takes nobody in and gives nobody away. -/
theorem of_still (lasts : Lasts v w) (still : Still v w) : Audits v w where
  slot s p here := .inl ((still.slot s).trans here)
  accounted d h := by
    obtain ⟨es, eq, apart⟩ := still.journal
    refine ⟨fun s p member => ?_, fun s p here => ?_, fun s k p taken => ?_, ?_⟩
    · rw [eq, held_append apart] at member
      rw [still.slot]
      exact (h.capture s p member).imp_right (·.imp_left lasts.closed)
    · rw [still.slot] at here
      rw [show held s w.journal = held s v.journal by rw [eq, held_append apart]]
      exact (h.slot s p here).imp_right (·.imp_left lasts.closed)
    · rw [eq, taken_append rfl apart] at taken
      rw [still.stored]
      exact (h.stream s k p taken).imp_right (·.imp_left lasts.closed)
    · intro p x session joined
      rw [eq] at joined
      obtain new | before := List.mem_append.mp joined
      · exact absurd (apart _ new) (by simp [Entry.joins, session])
      · exact (h.moved p x session before).imp_left lasts.moved

/-- A session has given away what it had in use for capture, and that was closed. -/
theorem vacated {s t : SessionId} {q : ProcessorId} {f : Session → Session}
    (audits : Audits (w.arrange s f) v)
    (closed : ∀ q, w.rig.slot s = some q → HasClosed q v.journal)
    (slot : w.rig.slot t = some q) : t ≠ s ∧ v.rig.slot t = some q ∨ HasClosed q v.journal := by
  by_cases same : t = s
  · subst same
    exact .inr (closed q slot)
  · have still := audits.slot t q ((World.arrange_slot_ne (Ne.symm same)).trans slot)
    exact still.imp_left fun still => ⟨same, still⟩

end Audits

namespace Accounts

variable {u v w : World S}

theorem refl (w : World S) : Accounts w w where
  toLasts := .refl w
  audits _ _ := .refl w

theorem trans (first : Accounts u v) (second : Accounts v w) : Accounts u w where
  toLasts := first.toLasts.trans second.toLasts
  audits internal recorded := by
    have before := first.audits (second.internal internal) recorded
    exact before.trans second.toLasts
      (second.audits internal fun q => first.records q (recorded q))

theorem flow : Flow (Accounts (S := S)) := ⟨refl, trans⟩

theorem of_still {m : Run S α} (lasts : Keeps Lasts m) (still : Keeps Still m) :
    Keeps Accounts m := fun w a w' run =>
  ⟨lasts w a w' run, fun _ _ => .of_still (lasts w a w' run) (still w a w' run)⟩

theorem of_audits {m : Run S α} (lasts : Keeps Lasts m) (audits : ∀ w, Ensures m w fun _ w' =>
    w'.Internal → (∀ q, w.Recorded q) → Audits w w') : Keeps Accounts m :=
  fun w a w' run => ⟨lasts w a w' run, audits w a w' run⟩

theorem tame : Tame (Accounts (S := S)) where
  toFlow := flow
  own w s := ⟨Lasts.plain.own w s, fun _ _ => .of_still (Lasts.plain.own w s) (.of_same rfl rfl)⟩
  aside e aside := of_still (Lasts.plain.aside e aside) (Still.tame.aside e aside)
  effects w es last :=
    have lasts := Lasts.plain.effects w es last
    ⟨lasts, fun _ _ => .of_still lasts (.of_same rfl rfl)⟩
  story w page :=
    ⟨Lasts.plain.story w page, fun _ _ => .of_still (Lasts.plain.story w page) (.of_same rfl rfl)⟩
  mark := of_still Lasts.plain.mark Still.tame.mark
  users s f := of_still (Lasts.plain.users s f) (Still.tame.users s f)
  newProcessor name tracks :=
    of_still (Lasts.plain.newProcessor name tracks) (Still.tame.newProcessor name tracks)
  newExternal name phase tracks :=
    of_still (Lasts.plain.newExternal name phase tracks) (Still.tame.newExternal name phase tracks)
  watch q x := of_still (Lasts.plain.watch q x) (Still.tame.watch q x)
  setChain q i chain :=
    of_still (Lasts.plain.setChain q i chain) (Still.tame.setChain q i chain)
  setEnabled q i enabled :=
    of_still (Lasts.plain.setEnabled q i enabled) (Still.tame.setEnabled q i enabled)
  counted q := of_still (Lasts.plain.counted q) (Still.tame.counted q)

theorem stable (app : Application S) : Stable app (fun _ => True) Accounts where
  toTame := tame
  holding q _ := flow.holding fun _ =>
    of_still (Lasts.modifyProcessor q (fun _ => rfl) fun _ => rfl) (Still.modify q _)
  opened x := of_still ((Lasts.steady app).opened x) ((Still.stable app).opened x)
  closed x := of_still ((Lasts.steady app).closed x) ((Still.stable app).closed x)
  setOpen q i isOpen :=
    of_still ((Lasts.steady app).setOpen q i isOpen) ((Still.stable app).setOpen q i isOpen)
  moveTo q all phase :=
    of_still ((Lasts.steady app).moveTo q all phase) ((Still.stable app).moveTo q all phase)
  readied q all tracks :=
    of_still ((Lasts.steady app).readied q all tracks) ((Still.stable app).readied q all tracks)
  lockTracks q all :=
    of_still ((Lasts.steady app).lockTracks q all) ((Still.stable app).lockTracks q all)
  emit again answers q _ e := tame.emit
    (fun _ _ => of_still (Lasts.record fun _ => Records.record fun _ _ => nofun) (Still.record rfl))
    (fun _ _ _ => of_still (Lasts.record fun _ => Records.record fun _ _ => nofun)
      (Still.record rfl)) again answers q e

theorem lasts (answers : Answers Accounts again) : Answers Lasts again := fun c v b v' run =>
  (answers c v b v' run).toLasts

section Processors

variable (answers : Answers Accounts again)
include answers

/-- A processor of the rig that is closed has closed. -/
theorem close (q : ProcessorId) : Ensures (close app again q) w fun _ w' =>
    Accounts w w' ∧ (w'.Internal → w.Recorded q → HasClosed q w'.journal) := by
  have external {x : Processor} (known : w.rig.processors[q]? = some x)
      (external : x.isExternal = true) {w' : World S} (next : Accounts w w') : ¬w'.Internal := by
    intro internal
    have := next.toLasts.internal internal q
    rw [Rig.isExternal_of known, external] at this
    cases this
  apply Ensures.processor
  intro x known
  split
  case isTrue isExternal =>
    refine Ensures.bind (tame.ask answers q _ w) fun _ w' next => ensures_pure.mpr ⟨next, ?_⟩
    exact fun internal => absurd internal (external known isExternal next)
  split
  case isTrue =>
    have moves := (stable app).moveTo q trivial .closed
    have finishes := (stable app).settling.finish answers (p := q) trivial x
    intro _ w' run
    obtain ⟨_, v, move, rest⟩ := Run.bind_ok.mp run
    have next := finishes v _ w' rest
    refine ⟨(moves w _ v move).trans next, fun _ _ => next.toLasts.closed ?_⟩
    rw [Run.moveTo_ok move]
    exact List.mem_cons_self
  case isFalse closed =>
    refine ensures_pure.mpr ⟨refl w, fun internal recorded => .of_lastPhase ?_⟩
    rw [recorded.lastPhase (internal q) known]
    simpa [Phase.isClosed] using closed

/-- A processor that is not configured yet is configured with success. -/
theorem configure (p : ProcessorId) : Ensures (configure app again p) w fun r w' =>
    Accounts w w' ∧ (w'.Internal → w.rig.phase p = .unrealized →
      acts p w'.journal ≠ [] ∧ r = .ok ()) := by
  -- An external processor is asked, and nothing is said of it.
  apply Ensures.processor
  intro x known
  split
  case isTrue isExternal =>
    refine (tame.ask answers p _ w).mono fun _ w' next => ⟨next, fun internal => ?_⟩
    have := next.toLasts.internal internal p
    rw [Rig.isExternal_of known, isExternal] at this
    cases this
  split
  case h_1 =>
    intro r w' run
    obtain ⟨_, v, move, run⟩ := Run.bind_ok.mp run
    obtain ⟨_, v', note, run⟩ := Run.bind_ok.mp run
    obtain ⟨_, v'', move', run⟩ := Run.bind_ok.mp run
    obtain ⟨_, _, tells, ⟨⟩⟩ := Run.bind_ok.mp run
    have h := stable (S := S) app
    have next := (tame.notice _ v _ v' note).trans
      ((h.moveTo p trivial .configured v' _ v'' move').trans
        (h.emit again answers p trivial .configured v'' _ w' tells))
    refine ⟨(h.moveTo p trivial .configuring w _ v move).trans next, fun _ _ => ⟨?_, rfl⟩⟩
    apply next.toLasts.moved
    simp [Run.moveTo_ok move]
  case h_2 closed =>
    refine ensures_pure.mpr ⟨refl w, fun _ phase => ?_⟩
    rw [Rig.phase_of known, closed] at phase
    cases phase
  case h_3 other _ =>
    refine ensures_pure.mpr ⟨refl w, fun _ phase => ?_⟩
    rw [Rig.phase_of known] at phase
    exact absurd phase other

/-- A session takes a processor in exactly if it has not realized yet. -/
theorem begins (p : ProcessorId) {configured : Run S Unit} (keeps : Keeps Accounts configured) :
    Ensures (beginConfiguration app again p configured) w fun r w' =>
      Accounts w w' ∧ (w'.Internal → w.Recorded p → acts p w'.journal ≠ [] ∧
        if early p w.journal then r = .ok () else w' = w ∧ r ≠ .ok ()) := by
  apply Ensures.processor
  intro x known
  have phase {w' : World S} (next : Accounts w w') (internal : w'.Internal)
      (recorded : w.Recorded p) : lastPhase (acts p w.journal) = x.phase :=
    recorded.lastPhase (next.toLasts.internal internal p) known
  split
  -- The phase decides, and the journal knows the phase of a processor that is recorded.
  case h_1 unrealized =>
    refine (configure answers p).mono fun r w' next => ⟨next.1, fun internal recorded => ?_⟩
    obtain ⟨moved, rfl⟩ := next.2 internal ((Rig.phase_of known).trans unrealized)
    rw [early, phase next.1 internal recorded, unrealized]
    exact ⟨moved, rfl⟩
  case h_2 configuring =>
    refine ensures_pure.mpr ⟨refl w, fun internal recorded => ?_⟩
    have last := phase (refl w) internal recorded
    rw [early, last, configuring]
    exact ⟨acts_ne_nil (by simp [last, configuring]), rfl⟩
  case h_3 isConfigured =>
    refine Ensures.bind (keeps w) fun _ w' next => ensures_pure.mpr ⟨next, ?_⟩
    intro internal recorded
    have last := phase next internal recorded
    rw [early, last, isConfigured]
    exact ⟨next.toLasts.moved (acts_ne_nil (by simp [last, isConfigured])), rfl⟩
  case h_4 other other' other'' =>
    refine ensures_pure.mpr ⟨refl w, fun internal recorded => ?_⟩
    have last := phase (refl w) internal recorded
    have late : x.phase.isEarly = false := by grind [Phase.isEarly]
    rw [early, last, late]
    refine ⟨acts_ne_nil ?_, rfl, fun h => by cases h⟩
    rw [last]
    exact other

/-- A processor that has not realized is taken in. Of any other the session makes undone what it did
before. -/
theorem takes (s : SessionId) (p : ProcessorId) (x : Subscriber) {body : Run S Unit}
    (keeps : Keeps Accounts body) (failed : Fault → SessionNotice) (undo : Session → Session) :
    Ensures (takeIn app again s p x body failed undo) w fun r w' => Lasts w w' ∧
      .subscribed p x :: w.journal <:+ w'.journal ∧ (w'.Internal → (∀ q, w.Recorded q) →
        if early p w.journal then
          r = .ok () ∧ Audits (w.subscribe p x) w' ∧ acts p w'.journal ≠ []
        else r ≠ .ok () ∧ acts p w.journal ≠ [] ∧
          ∃ n, w' = ((w.subscribe p x).record (.notice n)).arrange s undo) := by
  refine ensures_bind.mpr (ensures_subscribe.mpr fun y known => ?_)
  have joins := Lasts.subscribe known x
  -- Subscribing is not among the acts of the processor, which is as early after it as before.
  have early_eq : early p (w.subscribe p x).journal = early p w.journal := by simp [early]
  refine Ensures.bind (begins answers p keeps) fun r v next => ?_
  obtain ⟨next, begun⟩ := next
  rw [early_eq] at begun
  cases r with
  | ok =>
    refine ensures_pure.mpr ⟨joins.trans next.toLasts, next.journal, fun internal recorded => ?_⟩
    have recorded' (q : ProcessorId) := joins.records q (recorded q)
    obtain ⟨moved, taken⟩ := begun internal (recorded' p)
    split at taken
    case isTrue isEarly =>
      rw [if_pos isEarly]
      exact ⟨rfl, next.audits internal recorded', moved⟩
    case isFalse => exact absurd rfl taken.2
  | error f =>
    refine ensures_bind.mpr (ensures_sessionNotice.mpr fun z known' => ?_)
    refine ensures_bind.mpr (ensures_modifySession.mpr (ensures_pure.mpr ?_))
    have ends := (Lasts.notice (.session z.label (failed f))).trans
      (Lasts.arrange (w := v.record _) s undo)
    refine ⟨joins.trans (next.toLasts.trans ends), next.journal.trans ends.journal, ?_⟩
    intro internal recorded
    obtain ⟨moved, taken⟩ := begun internal (joins.records p (recorded p))
    split at taken
    case isTrue => cases taken
    case isFalse late =>
      obtain ⟨rfl, refused⟩ := taken
      rw [if_neg late]
      exact ⟨refused, by simpa using moved, _, rfl⟩

/-- A session that has given a processor its place for capture goes on and takes it in. -/
theorem receive (s : SessionId) (p : ProcessorId) :
    Ensures (takeCapture app again s p) w fun r w' =>
      Lasts w w' ∧ .subscribed p (.capture s) :: w.journal <:+ w'.journal ∧
        (w'.Internal → (∀ q, w.Recorded q) → (r = .ok () ↔ early p w.journal = true) ∧
        (∀ t q, t ≠ s → w.rig.slot t = some q →
          w'.rig.slot t = some q ∨ HasClosed q w'.journal) ∧
        ∀ d, w.Accounted (d.come s p) → w.rig.slot s = some p ∨ HasClosed p w.journal →
          w'.Accounted d) := by
  refine (takes answers s p _ (tame.captureUpdate answers s p _) _ _).mono ?_
  rintro r w' ⟨lasts, joins, taken⟩
  refine ⟨lasts, joins, fun internal recorded => ?_⟩
  have taken := taken internal recorded
  split at taken
  case isTrue isEarly =>
    obtain ⟨rfl, audits, moved⟩ := taken
    refine ⟨by simp [isEarly], fun t q _ slot => audits.slot t q slot, fun d h here => ?_⟩
    exact (audits.accounted _ (h.take here isEarly)).configured moved
  case isFalse late =>
    obtain ⟨refused, moved, n, rfl⟩ := taken
    rw [Bool.not_eq_true] at late
    refine ⟨by simp [late, refused], fun t q other slot => .inl ?_, fun d h here => ?_⟩
    · exact (World.arrange_slot_ne (Ne.symm other)).trans slot
    · exact h.refuse late moved n

/-- The processor has got its place, and the one that had it before is closed. -/
theorem engages {v : World S} {x : Session} (known : w.rig.sessions[s]? = some x)
    (next : Lasts (w.arrange s fun x => { x with capture := some p }) v)
    (gone : v.Internal → (∀ q, w.Recorded q) →
      Audits (w.arrange s fun x => { x with capture := some p }) v ∧
        ∀ q, w.rig.slot s = some q → HasClosed q v.journal) :
    Ensures (takeCapture app again s p) v fun r w' =>
      w'.Internal → (∀ q, w.Recorded q) → Audits w w' ∧ ∃ before, w.journal <:+ before ∧
        .subscribed p (.capture s) :: before <:+ w'.journal ∧
        (r = .ok () ↔ early p before = true) := by
  have begun := Lasts.arrange (w := w) s fun x => { x with capture := some p }
  have here : (w.arrange s fun x => { x with capture := some p }).rig.slot s = some p :=
    World.arrange_slot_self known
  refine (receive answers s p).mono ?_
  rintro r w' ⟨lasts', joins, ends⟩ internal recorded
  obtain ⟨audits, closed⟩ := gone (lasts'.internal internal) recorded
  obtain ⟨result, others, accounted⟩ :=
    ends internal fun q => next.records q (begun.records q (recorded q))
  refine ⟨⟨fun t r was => ?_, fun d h => ?_⟩, v.journal, begun.journal.trans next.journal, joins,
    result⟩
  · obtain ⟨other, still⟩ | closed := audits.vacated closed was
    · exact others t r other still
    · exact .inr (lasts'.closed closed)
  · have swaps := (h.come s p).vacate (s := s) (f := fun x => { x with capture := some p })
      (fun _ => rfl) fun q after => .inr ⟨rfl, Option.some.inj (here.symm.trans after)⟩
    refine accounted d ((audits.accounted _ swaps).paid ?_) (audits.slot s p here)
    rintro y q ⟨-, inUse⟩
    exact closed q inUse

/-- The answer to a connection says whether the processor was taken in. -/
theorem connects (s : SessionId) (p : ProcessorId) :
    Ensures (Metering.connectCapture app again s p) w fun r w' =>
      w'.Internal → (∀ q, w.Recorded q) → Audits w w' ∧ ∃ before, w.journal <:+ before ∧
        .subscribed p (.capture s) :: before <:+ w'.journal ∧
        (r = .ok () ↔ early p before = true) := by
  refine ensures_bind.mpr (ensures_session.mpr fun x known => ?_)
  refine ensures_bind.mpr (ensures_modifySession.mpr ?_)
  have slot : w.rig.slot s = x.capture := Rig.slot_of known
  have begun := Lasts.arrange (w := w) s fun x => { x with capture := some p }
  dsimp only
  split
  case h_1 q before =>
    refine ensures_bind.mpr (ensures_sessionNotice.mpr fun y _ => ?_)
    refine Ensures.bind (close answers q) fun _ v closes => ?_
    obtain ⟨next, closing⟩ := closes
    have noted := begun.trans (Lasts.notice (.session y.label .captureReplaced))
    refine engages answers known ((Lasts.notice _).trans next.toLasts) fun internal recorded => ?_
    have recorded' (q : ProcessorId) := noted.records q (recorded q)
    refine ⟨(Audits.of_still (Lasts.notice _) (Still.notice _)).trans next.toLasts
      (next.audits internal recorded'), fun r inUse => ?_⟩
    obtain rfl : q = r := Option.some.inj (before.symm.trans (slot.symm.trans inUse))
    exact closing internal (recorded' q)
  case h_2 none =>
    refine engages answers known (.refl _) fun internal recorded => ⟨.refl _, fun r inUse => ?_⟩
    cases none.symm.trans (slot.symm.trans inUse)

theorem connectCapture (s : SessionId) (p : ProcessorId) :
    Keeps Accounts (connectCapture app again s p) :=
  of_audits ((Lasts.lawful app).connectCapture (lasts answers) s p) fun _ =>
    (connects answers s p).mono fun _ _ ends internal recorded => (ends internal recorded).1

/-- A processor with which a stream is added is taken in. -/
theorem adds (s : SessionId) (k : Ssrc) (p : ProcessorId) :
    Ensures (Metering.addStream app again s k p) w fun r w' =>
      w'.Internal → (∀ q, w.Recorded q) → Audits w w' ∧ (r = .ok () → ∃ before,
        w.journal <:+ before ∧ .subscribed p (.stream s k) :: before <:+ w'.journal ∧
        early p before = true) := by
  refine ensures_bind.mpr (ensures_session.mpr fun x known => ?_)
  split
  case isTrue => exact ensures_pure.mpr fun _ _ => ⟨.refl w, nofun⟩
  case isFalse absent =>
  have makes (e : LevelEffect) : Ensures (Run.newEffect e) w fun _ v =>
      Lasts w v ∧ Still w v ∧ v.rig.sessions[s]? = some x := fun n v run =>
    ⟨Lasts.plain.newEffect e w n v run, Still.tame.newEffect e w n v run, by cases run; exact known⟩
  refine Ensures.bind (makes _) fun e v made => ?_
  obtain ⟨made, still, known⟩ := made
  refine ensures_bind.mpr (ensures_modifySession.mpr ?_)
  have arranged := Lasts.arrange (w := v) s fun x => x.addStream k ⟨p, e⟩
  have here : (v.arrange s fun x => x.addStream k ⟨p, e⟩).rig.stored s k = some p := by
    simp [World.arrange_stored_self known, Session.stream?_addStream,
      Session.stream?_eq_none.mpr absent]
  have before := Audits.of_still made still
  refine Ensures.mono (m := takeStream app again s k p)
    (takes answers s p _ (tame.streamUpdate answers s k p _) _ _) ?_
  rintro r w' ⟨lasts, joins, taken⟩ internal recorded
  have begun := made.trans arranged
  have taken := taken internal fun q => begun.records q (recorded q)
  -- If it is taken in, the stream stays and the account has one more. Otherwise the entry is
  -- undone, and the account before is good again.
  split at taken
  case isTrue isEarly =>
    obtain ⟨rfl, audits, moved⟩ := taken
    refine ⟨⟨fun t q slot => audits.slot t q ?_, fun d h => ?_⟩, fun _ =>
      ⟨v.journal, made.journal, joins, isEarly⟩⟩
    · rw [World.subscribe_slot]
      exact (World.arrange_slot (by intro _; rfl)).trans ((still.slot t).trans slot)
    · have takes := ((before.accounted d h).addStream known).takeStream (.inl here)
      exact (audits.accounted _ takes).configured moved
  case isFalse late =>
    obtain ⟨refused, moved, n, rfl⟩ := taken
    refine ⟨before.trans (arranged.trans lasts) ⟨fun t q slot => .inl ?_, fun d h => ?_⟩,
      fun ok => absurd ok refused⟩
    · exact (World.slot_undone rfl t).trans slot
    · exact h.refuseStream (Bool.not_eq_true _ ▸ late) moved rfl (World.slot_undone rfl)
        (World.stored_undone rfl known absent)

theorem addStream (s : SessionId) (k : Ssrc) (p : ProcessorId) :
    Keeps Accounts (addStream app again s k p) :=
  of_audits ((Lasts.lawful app).addStream (lasts answers) s k p) fun _ =>
    (adds answers s k p).mono fun _ _ ends internal recorded => (ends internal recorded).1

theorem closeStream (x : Stream) : Ensures (closeStream app again x) w fun _ w' =>
    Accounts w w' ∧ (w'.Internal → w.Recorded x.processor → HasClosed x.processor w'.journal) := by
  refine Ensures.bind (close answers x.processor) fun _ v closes => ?_
  obtain ⟨next, closed⟩ := closes
  have mutes : Keeps Accounts (do setListener x.effect none; resetEffect x.effect : Run S Unit) :=
    flow.bind (tame.setListener _ _) fun _ => tame.resetEffect _
  refine (mutes v).mono fun _ w' rest => ⟨next.trans rest, fun internal recorded => ?_⟩
  exact rest.toLasts.closed (closed (rest.toLasts.internal internal) recorded)

theorem removeStream (s : SessionId) (k : Ssrc) : Keeps Accounts (removeStream app again s k) := by
  refine of_audits ((Lasts.lawful app).removeStream (lasts answers) s k) fun w => ?_
  refine ensures_bind.mpr (ensures_session.mpr fun x known => ?_)
  split
  case h_1 => exact ensures_pure.mpr fun _ _ => .refl w
  case h_2 st found =>
  refine ensures_bind.mpr (ensures_modifySession.mpr ?_)
  have arranged := Lasts.arrange (w := w) s fun x => x.removeStream k
  -- Until its processor is closed, the session owes an account of the stream.
  have gives {d : Debt} (h : w.Accounted d) : (w.arrange s fun x => x.removeStream k).Accounted
      (d.leave fun y q => y = .stream s k ∧ q = st.processor) := by
    refine (h.leave _).restream (fun _ => rfl) fun l q before => ?_
    rw [World.arrange_stored_self known, Session.stream?_removeStream]
    rw [Rig.stored_of known] at before
    split
    case isTrue same =>
      subst same
      rw [found] at before
      exact .inr (.inr ⟨rfl, (Option.some.inj before).symm⟩)
    case isFalse => exact .inl before
  refine Ensures.bind (closeStream answers st) fun _ v closes => ?_
  obtain ⟨next, closing⟩ := closes
  refine ensures_bind.mpr (ensures_sessionNotice.mpr fun z _ => ensures_pure.mpr ?_)
  intro internal recorded
  have internal' := (Lasts.notice (w := v) _).internal internal
  have recorded' (q : ProcessorId) := arranged.records q (recorded q)
  have audits := next.audits internal' recorded'
  have tells := Audits.of_still (Lasts.notice _) (Still.notice (w := v)
    (.session z.label (.streamRemoved k)))
  refine Audits.trans ⟨fun t q slot => audits.slot t q ?_, fun d h => ?_⟩ (Lasts.notice _) tells
  · exact (World.arrange_slot (by intro _; rfl)).trans slot
  · refine (audits.accounted _ (gives h)).paid ?_
    rintro y q ⟨rfl, rfl⟩
    exact closing internal' (recorded' _)

/-- Streams that a session has given away are closed one after the other. -/
theorem closeStreams (s : SessionId) (streams : List (Ssrc × Stream)) :
    Ensures (Run.each (fun e => Metering.closeStream app again e.2) streams) w fun _ w' =>
      Lasts w w' ∧ (w'.Internal → (∀ q, w.Recorded q) →
        (∀ t q, w.rig.slot t = some q → w'.rig.slot t = some q ∨ HasClosed q w'.journal) ∧
        ∀ d, w.Accounted (d.leave fun y q =>
            ∃ e ∈ streams, y = .stream s e.1 ∧ q = e.2.processor) → w'.Accounted d) := by
  induction streams generalizing w with
  | nil =>
    refine ensures_pure.mpr ⟨.refl w, fun _ _ => ⟨fun _ _ => .inl, fun d h => h.paid ?_⟩⟩
    rintro y q ⟨e, member, -⟩
    cases member
  | cons e streams ih =>
    refine Ensures.bind (closeStream answers e.2) fun _ v closes => ?_
    obtain ⟨next, closing⟩ := closes
    refine ih.mono ?_
    rintro _ w' ⟨rest, ends⟩
    refine ⟨next.toLasts.trans rest, fun internal recorded => ?_⟩
    have internal' := rest.internal internal
    have audits := next.audits internal' recorded
    obtain ⟨slots, accounted⟩ := ends internal fun q => next.records q (recorded q)
    refine ⟨fun t q slot => ?_, fun d h => accounted d ?_⟩
    · obtain still | closed := audits.slot t q slot
      · exact slots t q still
      · exact .inr (rest.closed closed)
    · refine (audits.accounted _ h).settle ?_ (fun _ _ comes => .inr (.inr comes)) fun _ => .inr
      rintro y q (away | ⟨f, member, rfl, rfl⟩)
      · exact .inr (.inl away)
      · obtain rfl | later := List.mem_cons.mp member
        · exact .inl (closing internal' (recorded _))
        · exact .inr (.inr ⟨f, later, rfl, rfl⟩)

theorem drains (s : SessionId) (e : EffectId) (n : SessionNotice) :
    Keeps Accounts (drain app again s e n) := by
  intro w
  refine ensures_bind.mpr (ensures_session.mpr fun x known => ?_)
  refine ensures_bind.mpr (ensures_modifySession.mpr ?_)
  have arranged := Lasts.arrange (w := w) s fun x => { x with streams := [] }
  have gives {d : Debt} (h : w.Accounted d) :
      (w.arrange s fun x => { x with streams := [] }).Accounted
        (d.leave fun y q => ∃ e ∈ app.arranged w.app x.streams,
          y = .stream s e.1 ∧ q = e.2.processor) := by
    refine (h.leave _).restream (fun _ => rfl) fun k q before => ?_
    rw [Rig.stored_of known] at before
    obtain ⟨st, found, rfl⟩ := Option.map_eq_some_iff.mp before
    have member := (app.arranged_perm w.app x.streams).mem_iff.mpr (Session.mem_of_stream? found)
    exact .inr (.inr ⟨_, member, rfl, rfl⟩)
  refine ensures_bind.mpr (ensures_get.mpr ?_)
  refine Ensures.bind (closeStreams answers s (app.arranged w.app x.streams)) fun _ v closes => ?_
  obtain ⟨closes, closing⟩ := closes
  have ends : Keeps Accounts (do resetEffect e; sessionNotice s n : Run S Unit) :=
    flow.bind (tame.resetEffect _) fun _ => tame.sessionNotice s n
  refine (ends v).mono fun _ w' rest => ⟨arranged.trans (closes.trans rest.toLasts), ?_⟩
  intro internal recorded
  have recorded' (q : ProcessorId) := arranged.records q (recorded q)
  obtain ⟨slots, accounted⟩ := closing (rest.toLasts.internal internal) recorded'
  refine Audits.trans ⟨fun t q slot => slots t q ?_, fun d h => accounted d (gives h)⟩ rest.toLasts
    (rest.audits internal fun q => closes.records q (recorded' q))
  exact (World.arrange_slot (by intro _; rfl)).trans slot

theorem closeSession (s : SessionId) : Keeps Accounts (closeSession app again s) := by
  refine of_audits ((Lasts.lawful app).closeSession (lasts answers) s) fun w => ?_
  refine ensures_bind.mpr (ensures_session.mpr fun x known => ?_)
  refine ensures_bind.mpr (ensures_modifySession.mpr ?_)
  have slot : w.rig.slot s = x.capture := Rig.slot_of known
  have arranged := Lasts.arrange (w := w) s fun x => { x with capture := none }
  -- The streams are drained in the same way whether there was a capture or not. What differs is why
  -- the processor of the slot has closed by then.
  have rest {v : World S} (next : Lasts (w.arrange s fun x => { x with capture := none }) v)
      (gone : v.Internal → (∀ q, w.Recorded q) →
        Audits (w.arrange s fun x => { x with capture := none }) v ∧
          ∀ q, w.rig.slot s = some q → HasClosed q v.journal) :
      Ensures (drain app again s x.localEffect (.closed x.device)) v fun _ w' =>
        w'.Internal → (∀ q, w.Recorded q) → Audits w w' := by
    refine (drains answers s x.localEffect (.closed x.device) v).mono ?_
    intro _ w' ends internal recorded
    obtain ⟨audits, closed⟩ := gone (ends.toLasts.internal internal) recorded
    refine Audits.trans ⟨fun t q was => ?_, fun d h => ?_⟩ ends.toLasts
      (ends.audits internal fun q => next.records q (arranged.records q (recorded q)))
    · exact (audits.vacated closed was).imp_left And.right
    · have gives := h.vacate (s := s) (f := fun x => { x with capture := none }) (fun _ => rfl)
        fun q after => by cases (World.arrange_slot_none fun _ => rfl).symm.trans after
      refine (audits.accounted _ gives).paid ?_
      rintro y q ⟨-, inUse⟩
      exact closed q inUse
  dsimp only
  split
  case h_1 p before =>
    refine Ensures.bind (close answers p) fun _ v closes => ?_
    obtain ⟨next, closing⟩ := closes
    refine rest next.toLasts fun internal recorded => ?_
    have recorded' (q : ProcessorId) := arranged.records q (recorded q)
    refine ⟨next.audits internal recorded', fun q inUse => ?_⟩
    obtain rfl : p = q := Option.some.inj (before.symm.trans (slot.symm.trans inUse))
    exact closing internal (recorded' p)
  case h_2 none =>
    refine rest (.refl _) fun _ _ => ⟨.refl _, fun q inUse => ?_⟩
    cases none.symm.trans (slot.symm.trans inUse)

end Processors

theorem abiding (app : Application S) : Abiding app Accounts where
  toTame := tame
  toDriven := (stable app).driven fun _ => trivial
  newSession label device config :=
    of_still ((Lasts.lawful app).newSession label device config)
      (Still.newSession label device config)
  setStreamListener s l :=
    of_still ((Lasts.lawful app).setStreamListener s l) (Still.setStreamListener s l)
  connectCapture _ answers := connectCapture answers
  addStream _ answers := addStream answers
  removeStream _ answers := removeStream answers
  closeSession _ answers := closeSession answers

end Accounts

end Metering
