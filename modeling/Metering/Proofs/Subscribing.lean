import Metering.Proofs.Accounting
/-!
When sessions and watchers subscribe to a processor. If plug-ins are quiet, nobody does while a
processor realizes, because nobody is called then who could.
-/

namespace Metering

variable {S : Type}

/-- Nobody has subscribed to a processor while it realized, and none realizes now. -/
structure Settled (journal : List Entry) : Prop where
  apart : ∀ p x before, .subscribed p x :: before <:+ journal →
    lastPhase (acts p before) ≠ .realizing
  idle : ∀ q, lastPhase (acts q journal) ≠ .realizing

/-- The entry says what plug-ins do that a processor tends. -/
def Entry.tends : Entry → Bool
  | .moved .. | .announced .. | .subscribed .. => false
  | _ => true

/-- Plug-ins are tended, and nothing else happens. -/
def Minds (w w' : World S) : Prop :=
  ∃ es, w'.journal = es ++ w.journal ∧ ∀ e ∈ es, e.tends = true

/-- Subscriptions go on to be apart from realizations. -/
structure Parts (w w' : World S) : Prop extends Lasts w w' where
  settled : w'.Internal → Settled w.journal → Settled w'.journal

section Journal

variable {e : Entry} {es journal : List Entry} {p : ProcessorId}

theorem Settled.nil : Settled [] where
  apart p x before within := by cases List.suffix_nil.mp within
  idle q := nofun

theorem acts_tends (tends : ∀ e ∈ es, e.tends = true) :
    acts p (es ++ journal) = acts p journal := by
  induction es with
  | nil => rfl
  | cons e es ih =>
    have here := tends e List.mem_cons_self
    rw [List.cons_append, acts_cons, ih fun f member => tends f (List.mem_cons_of_mem _ member)]
    cases e with
    | moved | announced | subscribed => cases here
    | _ => simp

theorem suffix_tends (tends : ∀ e ∈ es, e.tends = true) {x : Subscriber} {before : List Entry}
    (within : .subscribed p x :: before <:+ es ++ journal) :
    .subscribed p x :: before <:+ journal := by
  induction es with
  | nil => exact within
  | cons e es ih =>
    obtain same | later := List.suffix_cons_iff.mp within
    · obtain ⟨rfl, -⟩ := List.cons_eq_cons.mp same
      cases tends _ List.mem_cons_self
    · exact ih (fun f member => tends f (List.mem_cons_of_mem _ member)) later

theorem Settled.append (h : Settled journal) (tends : ∀ e ∈ es, e.tends = true) :
    Settled (es ++ journal) where
  apart p x before within := h.apart p x before (suffix_tends tends within)
  idle q := by
    rw [acts_tends tends]
    exact h.idle q

/-- Where no processor realizes, a subscription is as good as any other entry. -/
theorem Settled.cons (h : Settled journal)
    (idle : ∀ q, lastPhase (acts q (e :: journal)) ≠ .realizing) : Settled (e :: journal) where
  apart p x before within := by
    obtain same | earlier := List.suffix_cons_iff.mp within
    · obtain ⟨-, rfl⟩ := List.cons_eq_cons.mp same
      exact h.idle p
    · exact h.apart p x before earlier
  idle := idle

theorem Settled.announced (h : Settled journal) (q : ProcessorId) (f : Event) :
    Settled (.announced q f :: journal) :=
  h.cons fun p => by
    by_cases same : q = p
    · simpa [same] using h.idle p
    · simpa [same] using h.idle p

theorem Settled.subscribed (h : Settled journal) (q : ProcessorId) (y : Subscriber) :
    Settled (.subscribed q y :: journal) :=
  h.cons fun p => by simpa using h.idle p

theorem Settled.moved (h : Settled journal) (q : ProcessorId) {phase : Phase}
    (apart : phase ≠ .realizing) : Settled (.moved q phase :: journal) :=
  h.cons fun p => by
    by_cases same : q = p
    · simpa [same] using apart
    · simpa [same] using h.idle p

/-- A processor realizes, tends its plug-ins and comes to another phase. -/
theorem Settled.realized (h : Settled journal) (q : ProcessorId)
    (tends : ∀ e ∈ es, e.tends = true) {phase : Phase} (apart : phase ≠ .realizing) :
    Settled (.moved q phase :: (es ++ .moved q .realizing :: journal)) where
  apart p x before within := by
    obtain same | earlier := List.suffix_cons_iff.mp within
    · cases same
    obtain same | earlier := List.suffix_cons_iff.mp (suffix_tends tends earlier)
    · cases same
    · exact h.apart p x before earlier
  idle p := by
    rw [acts_cons, acts_tends tends]
    by_cases same : q = p
    · simp only [Entry.act?, same, if_true, Option.toList_some, lastPhase_moved]
      exact apart
    · simpa [same] using h.idle p

end Journal

namespace Minds

variable {u v w : World S}

theorem of_same (same : v.journal = w.journal) : Minds w v := ⟨[], same, by simp⟩

theorem trans (first : Minds u v) (second : Minds v w) : Minds u w := by
  obtain ⟨es, eq, tends⟩ := first
  obtain ⟨fs, eq', tends'⟩ := second
  refine ⟨fs ++ es, by rw [eq', eq, List.append_assoc], fun e member => ?_⟩
  obtain later | earlier := List.mem_append.mp member
  · exact tends' e later
  · exact tends e earlier

theorem written {e : Entry} (tends : e.tends = true) : Minds w (w.record e) :=
  ⟨[e], rfl, by simpa using tends⟩

theorem record {e : Entry} (tends : e.tends = true) : Keeps (S := S) Minds (Run.record e) :=
  fun _ => ensures_record.mpr (written tends)

theorem modify (q : ProcessorId) (f : Processor → Processor) :
    Keeps (S := S) Minds (Run.modifyProcessor q f) :=
  fun _ => ensures_modifyProcessor.mpr (of_same rfl)

theorem flow : Flow (Minds (S := S)) := ⟨fun _ => of_same rfl, trans⟩

theorem tending : Tending (fun _ => True) (Minds (S := S)) where
  toFlow := flow
  own _ _ := of_same rfl
  aside e aside := record (by cases e <;> first | rfl | cases aside)
  effects _ _ _ := of_same rfl
  story _ _ := of_same rfl
  holding q _ := flow.holding fun _ => modify q _
  opened _ := record rfl
  closed _ := record rfl
  setOpen q _ _ := modify q _

end Minds

namespace Parts

variable {app : Application S} {again : {β : Type} → Call β → Run S β} {v w : World S}

theorem flow : Flow (Parts (S := S)) where
  refl w := ⟨.refl w, fun _ => id⟩
  trans first second := ⟨first.toLasts.trans second.toLasts, fun internal settled =>
    second.settled internal (first.settled (second.toLasts.internal internal) settled)⟩

theorem of_tends {m : Run S α} (lasts : Keeps Lasts m) (tends : Keeps Minds m) :
    Keeps Parts m := fun w a w' run => ⟨lasts w a w' run, fun _ settled => by
  obtain ⟨es, eq, tends⟩ := tends w a w' run
  rw [eq]
  exact settled.append tends⟩

theorem plain : Plain (Parts (S := S)) where
  toFlow := flow
  own w s := ⟨Lasts.plain.own w s, fun _ => id⟩
  aside e aside := of_tends (Lasts.plain.aside e aside) (Minds.tending.aside e aside)
  effects w es last := ⟨Lasts.plain.effects w es last, fun _ => id⟩
  story w page := ⟨Lasts.plain.story w page, fun _ => id⟩
  mark := of_tends Lasts.plain.mark fun _ => ensures_mark.mpr (.of_same rfl)
  sessions w ss := ⟨Lasts.plain.sessions w ss, fun _ => id⟩
  newProcessor name tracks := of_tends (Lasts.plain.newProcessor name tracks) fun w => by
    simp only [Run.newProcessor, ensures_bind, ensures_get, ensures_modifyRig, ensures_pure]
    exact .of_same rfl
  newExternal name phase tracks := of_tends (Lasts.plain.newExternal name phase tracks) fun w => by
    simp only [Run.newProcessor, ensures_bind, ensures_get, ensures_modifyRig, ensures_pure]
    exact .of_same rfl
  subscribe q x _ := ensures_subscribe.mpr fun _ known =>
    ⟨.subscribe known x, fun _ settled => settled.subscribed q x⟩
  setChain q i chain := of_tends (Lasts.plain.setChain q i chain) <|
    Minds.flow.setChain (fun q _ => Minds.modify q _) q i chain
  setEnabled q i enabled := of_tends (Lasts.plain.setEnabled q i enabled) (Minds.modify q _)
  counted q := of_tends (Lasts.plain.counted q) (Minds.modify q _)

/-- Whatever phase a processor comes to, it is not that of realizing. -/
theorem settling (app : Application S) : Settling app (fun _ => True) Parts where
  toTame := plain.toTame
  holding q _ := flow.holding fun _ =>
    of_tends (Lasts.modifyProcessor q (fun _ => rfl) fun _ => rfl) (Minds.modify q _)
  opened x := of_tends ((Lasts.steady app).opened x) (Minds.tending.opened x)
  closed x := of_tends ((Lasts.steady app).closed x) (Minds.tending.closed x)
  setOpen q i isOpen :=
    of_tends ((Lasts.steady app).setOpen q i isOpen) (Minds.tending.setOpen q i isOpen)
  moveTo q all phase apart w _ w' run := by
    refine ⟨(Lasts.steady app).moveTo q all phase w _ w' run, fun _ settled => ?_⟩
    rw [Run.moveTo_ok run]
    exact settled.moved q apart
  readied q all tracks := of_tends ((Lasts.steady app).readied q all tracks) (Minds.record rfl)
  lockTracks q all := of_tends ((Lasts.steady app).lockTracks q all) fun _ =>
    ensures_lockTracks.mpr (.of_same rfl)
  emit again answers q _ e := plain.toTame.emit
    (fun q e w _ w' run => by
      have lasts := Lasts.record (S := S) (e := .announced q e)
        fun _ => Records.record fun _ _ => nofun
      refine ⟨lasts w _ w' run, ?_⟩
      cases run
      exact fun _ settled => settled.announced q e)
    (fun x p e => of_tends
      (Lasts.record (e := .told x p e) fun _ => Records.record fun _ _ => nofun)
      (Minds.record rfl)) again answers q e

/-- A processor that has realized, or failed to, tells what phase it comes to. -/
theorem returns (answers : Answers Parts again) {q : ProcessorId}
    (tended : Minds (w.move q .realizing) v) (phase : Phase) (apart : phase ≠ .realizing)
    (e : Event) {α : Type} (a : α) :
    Ensures (do Run.moveTo q phase; Metering.emit app again q e; return a) v fun _ w' =>
      w'.Internal → Settled w.journal → Settled w'.journal := by
  apply Ensures.moveTo
  intro _ _
  obtain ⟨es, eq, tends⟩ := tended
  have tells : Keeps Parts (do Metering.emit app again q e; return a) :=
    flow.bind ((settling app).emit again answers q trivial e) fun _ => flow.pure a
  refine (tells _).mono fun _ w' next internal settled => next.settled internal ?_
  rw [World.move_journal, eq]
  exact settled.realized q tends apart

/-- While a processor realizes, its plug-ins are tended. -/
theorem realize (quiet : app.QuietPlugIns) (answers : Answers Parts again) (q : ProcessorId) :
    Keeps Parts (realize app again q) := by
  intro w a w' run
  have lasts : Answers Lasts again := fun c v b v' run => (answers c v b v' run).toLasts
  refine ⟨(Lasts.lawful app).realize again lasts q w a w' run, ?_⟩
  revert a w' run
  suffices Ensures (Metering.realize app again q) w fun _ w' =>
      w'.Internal → Settled w.journal → Settled w'.journal from this
  apply Ensures.processor
  intro x known
  split
  case isTrue => exact (plain.ask answers q _ w).mono fun _ _ next => next.settled
  split
  case h_1 =>
    apply Ensures.moveTo
    intro _ _
    have plugIns : PlugInsKeep app again Minds := Minds.tending.plugIns quiet
    have tends := Minds.tending.prepare (p := q) plugIns trivial
    refine Ensures.bind (tends _) fun r v tended => ?_
    cases r with
    | error f =>
      apply Ensures.processor
      intro _ _
      apply Ensures.notice
      exact returns answers (tended.trans (.written rfl)) .configured nofun _ _
    | ok =>
      apply Ensures.processor
      intro y _
      apply Ensures.record
      apply Ensures.lockTracks
      apply Ensures.notice
      have ends : Minds v ((v.record (.readied q y.enabledTracks)).lockTracks q) :=
        (Minds.written rfl).trans (.of_same rfl)
      exact returns answers (tended.trans (ends.trans (.written rfl))) .realized nofun _ _
  all_goals exact ensures_pure.mpr fun _ => id

theorem lawful (quiet : app.QuietPlugIns) : Lawful app (Parts (S := S)) where
  toPlain := plain
  configure _ answers q := (settling app).configure answers trivial
  realize _ answers q := realize quiet answers q
  start _ answers q := (settling app).start answers trivial
  stop _ answers q := (settling app).stop answers trivial
  close _ answers q := (settling app).close answers trivial
  enter q phase := by
    intro w
    apply Ensures.processor
    intro x known
    split
    case isTrue external =>
      -- A processor of the application takes any phase, but then not all are of the rig.
      intro _ w' run
      have lasts := (Lasts.steady app).moveTo q trivial phase w _ w' run
      refine ⟨lasts, fun internal => ?_⟩
      have := lasts.internal internal q
      rw [Rig.isExternal_of known, external] at this
      cases this
    case isFalse => exact ensures_pure.mpr (flow.refl w)
  emit again answers q e := by
    refine flow.bind (flow.processor q) fun x => ?_
    split
    · exact (settling app).emit again answers q trivial e
    · exact flow.pure _

end Parts

end Metering
