import Metering.Proofs.Closing
/-!
Sessions account for the processors that they take in. The journal says which processors a session
took in and which it turned away, and the session has each that it took in in its place, unless the
processor was closed. While an operation is under way it may owe an account of a few processors.
-/

namespace Metering

variable {S α : Type}

/-- A processor that has not realized yet. Sessions take in no others. -/
def Phase.isEarly : Phase → Bool
  | .unrealized | .configuring | .configured => true
  | _ => false

/-- The journal says that the processor has not realized yet. -/
def early (p : ProcessorId) (journal : List Entry) : Bool := (lastPhase (acts p journal)).isEarly

def Subscriber.isSession : Subscriber → Bool
  | .watcher _ => false
  | _ => true

def Entry.joins : Entry → Bool
  | .subscribed _ x => x.isSession
  | _ => false

/-- The processors that a session has taken in for capture since it turned one away, the latest
first. -/
def held (s : SessionId) : List Entry → List ProcessorId
  | [] => []
  | .subscribed p (.capture t) :: journal =>
    if t = s then (if early p journal then p :: held s journal else []) else held s journal
  | _ :: journal => held s journal

/-- The session took in the processor when it subscribed to it. -/
def Taken (p : ProcessorId) (x : Subscriber) (journal : List Entry) : Prop :=
  ∃ before, .subscribed p x :: before <:+ journal ∧ early p before = true

def HasClosed (p : ProcessorId) (journal : List Entry) : Prop := .moved p .closed ∈ journal

/-- The processor in use for capture. -/
def Rig.slot (r : Rig) (s : SessionId) : Option ProcessorId := (r.sessions[s]?).bind (·.capture)

/-- The processor that plays a stream. -/
def Rig.stored (r : Rig) (s : SessionId) (k : Ssrc) : Option ProcessorId :=
  (r.sessions[s]?).bind fun x => (x.stream? k).map (·.processor)

/-- What operations under way still have to account for. -/
structure Debt where
  /-- The session has given the processor away and is to close it. -/
  leaving : Subscriber → ProcessorId → Prop := fun _ _ => False
  /-- The processor stands in for capture, and the session is to subscribe to it. -/
  coming : SessionId → ProcessorId → Prop := fun _ _ => False
  /-- A session has subscribed to the processor and is to configure it. -/
  fresh : ProcessorId → Prop := fun _ => False

/-- What sessions have in their places is what the journal says that they took in, except for
processors that were closed. -/
structure World.Accounted (d : Debt) (w : World S) : Prop where
  capture : ∀ s p, p ∈ held s w.journal →
    w.rig.slot s = some p ∨ HasClosed p w.journal ∨ d.leaving (.capture s) p
  slot : ∀ s p, w.rig.slot s = some p →
    p ∈ held s w.journal ∨ HasClosed p w.journal ∨ d.coming s p
  stream : ∀ s k p, Taken p (.stream s k) w.journal →
    w.rig.stored s k = some p ∨ HasClosed p w.journal ∨ d.leaving (.stream s k) p
  moved : ∀ p x, x.isSession = true → .subscribed p x ∈ w.journal →
    acts p w.journal ≠ [] ∨ d.fresh p

def World.Internal (w : World S) : Prop := ∀ q, w.rig.isExternal q = false

/-- The journal goes on, and it still knows the phases. -/
structure Lasts (w w' : World S) : Prop where
  journal : w.journal <:+ w'.journal
  external : ∀ q, w.rig.isExternal q = true → w'.rig.isExternal q = true
  records : ∀ q, Records q w w'

/-- Sessions account for what they do with processors. -/
structure Audits (w w' : World S) : Prop where
  slot : ∀ s p, w.rig.slot s = some p → w'.rig.slot s = some p ∨ HasClosed p w'.journal
  accounted : ∀ d, w.Accounted d → w'.Accounted d

structure Accounts (w w' : World S) : Prop extends Lasts w w' where
  audits : w'.Internal → (∀ q, w.Recorded q) → Audits w w'

/-- No session takes a processor in or gives one away. -/
structure Still (w w' : World S) : Prop where
  slot : ∀ s, w'.rig.slot s = w.rig.slot s
  stored : ∀ s k, w'.rig.stored s k = w.rig.stored s k
  journal : ∃ es, w'.journal = es ++ w.journal ∧ ∀ e ∈ es, e.joins = false

section Journal

variable {s : SessionId} {p : ProcessorId} {x : Subscriber} {e : Entry} {es journal : List Entry}

theorem held_cons (apart : e.joins = false) : held s (e :: journal) = held s journal := by
  cases e with
  | subscribed q y =>
    cases y with
    | watcher => rfl
    | capture | stream => cases apart
  | _ => rfl

theorem held_append (apart : ∀ e ∈ es, e.joins = false) :
    held s (es ++ journal) = held s journal := by
  induction es with
  | nil => rfl
  | cons e es ih =>
    rw [List.cons_append, held_cons (apart e List.mem_cons_self)]
    exact ih fun e member => apart e (List.mem_cons_of_mem _ member)

theorem taken_cons :
    Taken p x (e :: journal) ↔ (e = .subscribed p x ∧ early p journal = true) ∨
      Taken p x journal := by
  simp only [Taken, List.suffix_cons_iff]
  constructor
  · rintro ⟨before, same | within, early⟩
    · obtain ⟨rfl, rfl⟩ := List.cons_eq_cons.mp same
      exact .inl ⟨rfl, early⟩
    · exact .inr ⟨before, within, early⟩
  · rintro (⟨rfl, early⟩ | ⟨before, within, early⟩)
    · exact ⟨journal, .inl rfl, early⟩
    · exact ⟨before, .inr within, early⟩

theorem not_taken_nil : ¬Taken p x [] := by
  rintro ⟨before, within, -⟩
  cases List.suffix_nil.mp within

instance Taken.decidable (p : ProcessorId) (x : Subscriber) :
    (journal : List Entry) → Decidable (Taken p x journal)
  | [] => isFalse not_taken_nil
  | _ :: journal =>
    have := Taken.decidable p x journal
    decidable_of_iff' _ taken_cons

theorem taken_append (session : x.isSession = true) (apart : ∀ e ∈ es, e.joins = false) :
    Taken p x (es ++ journal) ↔ Taken p x journal := by
  induction es with
  | nil => rfl
  | cons e es ih =>
    rw [List.cons_append, taken_cons, ih fun e member => apart e (List.mem_cons_of_mem _ member)]
    constructor
    · rintro (⟨rfl, -⟩ | taken)
      · exact absurd (apart _ List.mem_cons_self) (by simp [Entry.joins, session])
      · exact taken
    · exact .inr

theorem HasClosed.mono {later : List Entry} (h : HasClosed p journal)
    (grows : journal <:+ later) : HasClosed p later := grows.subset h

theorem HasClosed.of_lastPhase (h : lastPhase (acts p journal) = .closed) :
    HasClosed p journal := by
  induction journal with
  | nil => cases h
  | cons e journal ih =>
    cases e with
    | moved q phase =>
      by_cases same : q = p
      · subst same
        obtain rfl : phase = .closed := by simpa using h
        exact List.mem_cons_self
      · exact List.mem_cons_of_mem _ (ih (by simpa [same] using h))
    | announced q f =>
      refine List.mem_cons_of_mem _ (ih ?_)
      by_cases same : q = p
      · simpa [same] using h
      · simpa [same] using h
    | _ => exact List.mem_cons_of_mem _ (ih (by simpa using h))

end Journal

section Sessions

variable {r : Rig} {s t : SessionId} {f : Session → Session} {k : Ssrc}

theorem Rig.slot_of {x : Session} (known : r.sessions[s]? = some x) : r.slot s = x.capture := by
  simp [Rig.slot, known]

theorem Rig.stored_of {x : Session} (known : r.sessions[s]? = some x) :
    r.stored s k = (x.stream? k).map (·.processor) := by
  simp [Rig.stored, known]

theorem Rig.slot_modify (same : ∀ x, (f x).capture = x.capture) :
    ({ r with sessions := r.sessions.modify t f } : Rig).slot s = r.slot s := by
  simp only [Rig.slot, List.getElem?_modify]
  split <;> cases r.sessions[s]? <;> simp [same]

theorem Rig.stored_modify (same : ∀ x, (f x).streams = x.streams) :
    ({ r with sessions := r.sessions.modify t f } : Rig).stored s k = r.stored s k := by
  simp only [Rig.stored, List.getElem?_modify]
  split <;> cases r.sessions[s]? <;> simp [Session.stream?, same]

theorem Rig.slot_modify_ne (other : t ≠ s) :
    ({ r with sessions := r.sessions.modify t f } : Rig).slot s = r.slot s := by
  simp [Rig.slot, other]

theorem Rig.stored_modify_ne (other : t ≠ s) :
    ({ r with sessions := r.sessions.modify t f } : Rig).stored s k = r.stored s k := by
  simp [Rig.stored, other]

end Sessions

namespace Lasts

variable {u v w : World S}

theorem refl (w : World S) : Lasts w w := ⟨List.suffix_rfl, fun _ => id, fun _ => id⟩

theorem trans (first : Lasts u v) (second : Lasts v w) : Lasts u w where
  journal := first.journal.trans second.journal
  external q h := second.external q (first.external q h)
  records q h := second.records q (first.records q h)

theorem flow : Flow (Lasts (S := S)) := ⟨refl, trans⟩

theorem internal (h : Lasts v w) (internal : w.Internal) : v.Internal := by
  intro q
  cases external : v.rig.isExternal q with
  | false => rfl
  | true => exact (h.external q external).symm.trans (internal q)

/-- It is enough that the processors are not replaced and that the journal loses nothing. -/
theorem of_records {m : Run S α} (records : ∀ q, Keeps (Records q) m)
    (grows : ∀ w, Ensures m w fun _ w' => w.journal <:+ w'.journal ∧
      ∀ q, w.rig.isExternal q = true → w'.rig.isExternal q = true) : Keeps Lasts m :=
  fun w a w' run => ⟨(grows w a w' run).1, (grows w a w' run).2, fun q => records q w a w' run⟩

theorem record {e : Entry} (records : ∀ q, Keeps (Records (S := S) q) (Run.record e)) :
    Keeps (S := S) Lasts (Run.record e) :=
  of_records records fun _ => ensures_record.mpr ⟨List.suffix_cons .., fun _ => id⟩

theorem modify {q : ProcessorId} {f : Processor → Processor}
    (records : ∀ p, Keeps (Records (S := S) p) (Run.modifyProcessor q f))
    (same : ∀ x, (f x).isExternal = x.isExternal) :
    Keeps (S := S) Lasts (Run.modifyProcessor q f) :=
  of_records records fun _ => ensures_modifyProcessor.mpr
    ⟨List.suffix_rfl, fun _ external => (Rig.isExternal_modify same).trans external⟩

theorem modifyProcessor (q : ProcessorId) {f : Processor → Processor}
    (phase : ∀ x, (f x).phase = x.phase) (external : ∀ x, (f x).isExternal = x.isExternal) :
    Keeps (S := S) Lasts (Run.modifyProcessor q f) :=
  modify (fun _ _ => ensures_modifyProcessor.mpr
    (Records.of_rests _ _ (Rests.modify q phase external))) external

theorem newProcessor {x : Processor}
    (records : ∀ q, Keeps (Records (S := S) q) (Run.newProcessor x)) :
    Keeps (S := S) Lasts (Run.newProcessor x) := by
  apply of_records records
  intro w
  simp only [Run.newProcessor, ensures_bind, ensures_get, ensures_modifyRig, ensures_pure]
  refine ⟨List.suffix_rfl, fun q => ?_⟩
  simp only [Rig.isExternal, List.getElem?_append]
  grind

theorem plain : Plain (Lasts (S := S)) where
  toFlow := flow
  own w s := ⟨List.suffix_rfl, fun _ => id, fun _ => Records.plain.own w s⟩
  aside e aside := record fun _ => Records.plain.aside e aside
  effects w es last :=
    ⟨List.suffix_rfl, fun _ => id, fun _ => Records.plain.effects w es last⟩
  story w page := ⟨List.suffix_rfl, fun _ => id, fun _ => Records.plain.story w page⟩
  mark := of_records (fun _ => Records.plain.mark) fun _ =>
    ensures_mark.mpr ⟨List.suffix_rfl, fun _ => id⟩
  sessions w ss := ⟨List.suffix_rfl, fun _ => id, fun _ => Records.plain.sessions w ss⟩
  newProcessor name tracks := newProcessor fun _ => Records.plain.newProcessor name tracks
  newExternal name phase tracks :=
    newProcessor fun _ => Records.plain.newExternal name phase tracks
  subscribe q _ := flow.bind (flow.processor q) fun _ =>
    flow.bind (modifyProcessor q (fun _ => rfl) fun _ => rfl) fun _ =>
      record fun _ => Records.record fun _ _ => nofun
  setChain := flow.setChain fun q _ => modifyProcessor q (fun _ => rfl) fun _ => rfl
  setEnabled q i enabled := modify (fun _ => Records.plain.setEnabled q i enabled) fun _ => rfl
  counted q := modify (fun _ => Records.plain.counted q) fun _ => rfl

theorem steady (app : Application S) : Steady app (fun _ => True) Lasts where
  toPlain := plain
  holding q _ := flow.holding fun _ => modifyProcessor q (fun _ => rfl) fun _ => rfl
  opened x := record fun _ => (Records.steady app).opened x
  closed x := record fun _ => (Records.steady app).closed x
  setOpen q i isOpen := modify (fun _ => (Records.steady app).setOpen q i isOpen) fun _ => rfl
  moveTo q _ phase := of_records (fun _ => Records.moveTo q phase) fun _ =>
    ensures_moveTo.mpr fun _ _ =>
      ⟨List.suffix_cons .., fun _ external => World.move_isExternal.trans external⟩
  readied q _ tracks := record fun _ => (Records.steady app).readied q trivial tracks
  lockTracks q _ := modify (fun _ => (Records.steady app).lockTracks q trivial) fun _ => rfl
  emit again answers q _ e := plain.emit
    (fun _ _ => record fun _ => Records.record fun _ _ => nofun)
    (fun _ _ _ => record fun _ => Records.record fun _ _ => nofun) again answers q e

theorem lawful (app : Application S) : Lawful app Lasts :=
  (steady app).lawful fun _ => trivial

end Lasts

namespace Still

variable {u v w : World S}

theorem refl (w : World S) : Still w w := ⟨fun _ => rfl, fun _ _ => rfl, [], rfl, by simp⟩

theorem trans (first : Still u v) (second : Still v w) : Still u w where
  slot s := (second.slot s).trans (first.slot s)
  stored s k := (second.stored s k).trans (first.stored s k)
  journal := by
    obtain ⟨es, eq, apart⟩ := first.journal
    obtain ⟨fs, eq', apart'⟩ := second.journal
    refine ⟨fs ++ es, by rw [eq', eq, List.append_assoc], fun e member => ?_⟩
    obtain later | earlier := List.mem_append.mp member
    · exact apart' e later
    · exact apart e earlier

theorem flow : Flow (Still (S := S)) := ⟨refl, trans⟩

/-- A change that sessions do not notice. -/
theorem of_same {w' : World S} (sessions : w'.rig.sessions = w.rig.sessions)
    (journal : w'.journal = w.journal) : Still w w' where
  slot s := by rw [Rig.slot, sessions, Rig.slot]
  stored s k := by rw [Rig.stored, sessions, Rig.stored]
  journal := ⟨[], journal, by simp⟩

theorem record {e : Entry} (apart : e.joins = false) : Keeps (S := S) Still (Run.record e) :=
  fun _ => ensures_record.mpr ⟨fun _ => rfl, fun _ _ => rfl, [e], rfl, by simpa using apart⟩

theorem notice (n : Notice) : Still w (w.record (.notice n)) :=
  ⟨fun _ => rfl, fun _ _ => rfl, [.notice n], rfl, by simp [Entry.joins]⟩

theorem modify (q : ProcessorId) (f : Processor → Processor) :
    Keeps (S := S) Still (Run.modifyProcessor q f) :=
  fun _ => ensures_modifyProcessor.mpr (of_same rfl rfl)

theorem newProcessor (x : Processor) : Keeps (S := S) Still (Run.newProcessor x) := by
  intro w
  simp only [Run.newProcessor, ensures_bind, ensures_get, ensures_modifyRig, ensures_pure]
  exact of_same rfl rfl

theorem modifySession (s : SessionId) {f : Session → Session}
    (capture : ∀ x, (f x).capture = x.capture) (streams : ∀ x, (f x).streams = x.streams) :
    Keeps (S := S) Still (Run.modifySession s f) :=
  fun _ => ensures_modifySession.mpr
    ⟨fun _ => Rig.slot_modify capture, fun _ _ => Rig.stored_modify streams, [], rfl, by simp⟩

theorem tame : Tame (Still (S := S)) where
  toFlow := flow
  own _ _ := of_same rfl rfl
  aside e aside := record (by cases e <;> first | rfl | cases aside)
  effects _ _ _ := of_same rfl rfl
  story _ _ := of_same rfl rfl
  mark := fun _ => ensures_mark.mpr (of_same rfl rfl)
  users s _ := modifySession s (fun _ => rfl) fun _ => rfl
  newProcessor _ _ := newProcessor _
  newExternal _ _ _ := newProcessor _
  watch q _ := flow.bind (flow.processor q) fun _ =>
    flow.bind (modify q _) fun _ => record rfl
  setChain := flow.setChain fun q _ => modify q _
  setEnabled q _ _ := modify q _
  counted q := modify q _

theorem stable (app : Application S) : Stable app (fun _ => True) Still where
  toTame := tame
  holding q _ := flow.holding fun _ => modify q _
  opened _ := record rfl
  closed _ := record rfl
  setOpen q _ _ := modify q _
  moveTo q _ _ := flow.bind (flow.processor q) fun _ => flow.bind (modify q _) fun _ => record rfl
  readied _ _ _ := record rfl
  lockTracks q _ := modify q _
  emit again answers q _ e :=
    tame.emit (fun _ _ => record rfl) (fun _ _ _ => record rfl) again answers q e

theorem newSession (label : String) (device : Device) (config : SessionConfig) :
    Keeps (S := S) Still (newSession label device config) := by
  refine flow.bind (tame.newEffect _) fun e => ?_
  intro w
  simp only [Run.newSession, ensures_bind, ensures_get, ensures_modifyRig, ensures_pure]
  refine ⟨fun s => ?_, fun s k => ?_, [], rfl, by simp⟩
  · simp only [Rig.slot, List.getElem?_append]
    grind
  · simp only [Rig.stored, List.getElem?_append]
    grind [Session.stream?]

theorem setStreamListener (s : SessionId) (l : Option ListenerId) :
    Keeps (S := S) Still (setStreamListener s l) :=
  flow.bind (modifySession s (fun _ => rfl) fun _ => rfl) fun _ =>
    flow.bind (flow.session s) fun _ => flow.each (fun _ => tame.setListener _ l) _

end Still

end Metering
