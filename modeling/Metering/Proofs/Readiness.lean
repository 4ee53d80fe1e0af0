import Metering.Proofs.Preparing
import Metering.Proofs.Resources
/-!
Frames enter plug-ins. What a processor prepared while it realized is in place as long as it is up:
its chains are locked, and the journal still shows that the plug-ins accepted a format and were
opened. A track that was enabled only afterwards lets frames into plug-ins that never were.
-/

namespace Metering

variable {S α : Type} {app : Application S}

def Rig.chain (r : Rig) (p : ProcessorId) (i : Nat) : List PlugIn :=
  (r.processors[p]?).elim [] fun x => x.chain i

/-- When the processor realized last, the plug-ins of these tracks accepted the formats that were
offered, one chain after the other, and were opened. It has not been closed since. -/
def Moment.Realized (m : Moment) (p : ProcessorId) (tracks : List Nat) : Prop :=
  ∃ since stretch before,
    m.journal = since ++ .readied p tracks :: (stretch ++ .moved p .realizing :: before) ∧
    acceptances stretch = tracks.flatMap (m.rig.chain p) ∧
    openings stretch = tracks.flatMap (m.rig.chain p) ∧
    .moved p .closed ∉ since ∧ lastReadied p since = none

/-- A track is ready for frames: all plug-ins in its chain accepted a format and were opened when
the processor realized last, and since then they have stayed open. -/
structure Moment.TrackReady (m : Moment) (p : ProcessorId) (i : Nat) (t : Track) : Prop where
  realized : ∃ tracks, m.Realized p tracks ∧ i ∈ tracks
  isOpen : t.isOpen = true
  inUse : ∀ k, t.chain.countP k ≤ net k m.journal

def WasEnabled (p : ProcessorId) (i : Nat) (journal : List Entry) : Prop :=
  ∃ tracks, lastReadied p journal = some tracks ∧ i ∈ tracks

/-- What a processor prepared is in place as long as it is up. -/
def Moment.Prepared (m : Moment) : Prop :=
  ∀ (p : ProcessorId) (x : Processor), m.rig.processors[p]? = some x → x.isExternal = false →
    x.phase.isUp = true → (∀ t ∈ x.tracks, t.locked = true) ∧ ∃ tracks, m.Realized p tracks

theorem Rig.chain_of {r : Rig} {p : ProcessorId} {x : Processor}
    (known : r.processors[p]? = some x) : r.chain p = x.chain := by
  funext i
  simp [Rig.chain, known]

section Realized

variable {m : Moment} {p : ProcessorId} {tracks : List Nat}

theorem Moment.Realized.last (h : m.Realized p tracks) : lastReadied p m.journal = some tracks := by
  obtain ⟨since, stretch, before, eq, -, -, -, none⟩ := h
  rw [eq, lastReadied, List.findSome?_append]
  rw [lastReadied] at none
  simp [none]

/-- Neither that the processor is closed nor that it is ready again is among what happens. -/
theorem Moment.Realized.later (h : m.Realized p tracks) (r : Rig) (done : List Entry)
    (chain : r.chain p = m.rig.chain p) (alive : .moved p .closed ∉ done)
    (still : lastReadied p done = none) : (Moment.mk r (done ++ m.journal)).Realized p tracks := by
  obtain ⟨since, stretch, before, eq, accepted, opened, alive', none⟩ := h
  refine ⟨done ++ since, stretch, before, ?_, ?_, ?_, ?_, ?_⟩
  · simp [eq]
  · rw [accepted, chain]
  · rw [opened, chain]
  · simp [alive, alive']
  · rw [lastReadied, List.findSome?_append]
    rw [lastReadied] at still none
    simp [still, none]

end Realized

theorem lastReadied_of_still {p : ProcessorId} {done : List Entry}
    (still : ∀ e ∈ done, e.isTurn = false) : lastReadied p done = none := by
  rw [lastReadied, List.findSome?_eq_none_iff]
  intro e member
  cases e with
  | readied => cases still _ member
  | _ => rfl

theorem moved_of_still {p : ProcessorId} {phase : Phase} {done : List Entry}
    (still : ∀ e ∈ done, e.isTurn = false) : .moved p phase ∉ done :=
  fun member => by cases still _ member

def Prepares (w w' : World S) : Prop := w.now.Prepared → w'.now.Prepared

namespace Prepares

variable {w v : World S} {p : ProcessorId} {again : {β : Type} → Call β → Run S β}

theorem flow : Flow (Prepares (S := S)) := ⟨fun _ => id, fun first second h => second (first h)⟩

theorem of_ensures {m : Run S α}
    (h : ∀ w : World S, w.now.Prepared → Ensures m w fun _ w' => w'.now.Prepared) :
    Keeps Prepares m :=
  fun w a w' run prepared => h w prepared a w' run

theorem ensures {m : Run S α} (keeps : Keeps Prepares m) (h : w.now.Prepared) :
    Ensures m w fun _ w' => w'.now.Prepared :=
  fun a w' run => keeps w a w' run h

/-- Opening and closing chains, and whatever is no turn of a processor, leaves in place what was
prepared. -/
theorem of_tends (tends : Tends w v) : Prepares w v := by
  intro h p y known internal up
  obtain ⟨done, eq, still⟩ := tends.journal
  obtain ⟨x, known', same⟩ := tends.agrees.origin known
  have phase : y.shut.phase = x.shut.phase := congrArg Processor.phase same
  have external : y.shut.isExternal = x.shut.isExternal := congrArg Processor.isExternal same
  obtain ⟨locked, tracks, realized⟩ :=
    h p x known' (external.symm.trans internal) (phase.symm ▸ up)
  constructor
  · exact Processor.locked_of_shut same locked
  · have chain : v.rig.chain p = w.rig.chain p := by
      rw [Rig.chain_of (show v.rig.processors[p]? = some y from known), Rig.chain_of known',
        ← Processor.shut_chain, same, Processor.shut_chain]
    have later :=
      realized.later v.rig done chain (moved_of_still still) (lastReadied_of_still still)
    exact ⟨tracks, by rw [World.now, eq]; exact later⟩

theorem record {e : Entry} (still : e.isTurn = false) : Keeps (S := S) Prepares (Run.record e) :=
  fun w => (Tends.record still w).mono fun _ _ => of_tends

/-- A processor is changed, and the journal tells of it. -/
theorem change (p : ProcessorId) (done : List Entry) (h : w.now.Prepared)
    (rest : ∀ q, q ≠ p → v.rig.processors[q]? = w.rig.processors[q]?)
    (journal : v.journal = done ++ w.journal)
    (about : ∀ q, q ≠ p → .moved q .closed ∉ done ∧ lastReadied q done = none)
    (own : ∀ y, v.rig.processors[p]? = some y → y.isExternal = false → y.phase.isUp = true →
      (∀ t ∈ y.tracks, t.locked = true) ∧ ∃ tracks, v.now.Realized p tracks) :
    v.now.Prepared := by
  intro q y known internal up
  by_cases here : q = p
  · subst here
    exact own y known internal up
  · have known' : w.rig.processors[q]? = some y := (rest q here).symm.trans known
    obtain ⟨locked, tracks, realized⟩ := h q y known' internal up
    obtain ⟨alive, still⟩ := about q here
    have chain : v.rig.chain q = w.rig.chain q := by
      funext i
      rw [Rig.chain, Rig.chain, rest q here]
    have later := realized.later v.rig done chain alive still
    exact ⟨locked, tracks, by rw [World.now, journal]; exact later⟩

/-- A change of a processor that leaves it down, or locked and with the chains it has. -/
theorem modify {f : Processor → Processor} (h : w.now.Prepared)
    (same : ∀ x, w.rig.processors[p]? = some x → (f x).isExternal = false →
      (f x).phase.isUp = true → x.isExternal = false ∧ x.phase.isUp = true ∧
        ((∀ t ∈ x.tracks, t.locked = true) →
          (∀ t ∈ (f x).tracks, t.locked = true) ∧ (f x).chain = x.chain)) :
    (w.modify p f).now.Prepared := by
  refine change p [] h ?_ rfl (fun _ _ => ⟨by simp, rfl⟩) ?_
  · intro q other
    simp [Ne.symm other]
  · intro y known internal up
    rw [World.modify_processors, List.getElem?_modify_eq] at known
    obtain ⟨x, known', rfl⟩ := Option.map_eq_some_iff.mp known
    obtain ⟨internal, up, keeps⟩ := same x known' internal up
    obtain ⟨locked, tracks, realized⟩ := h p x known' internal up
    obtain ⟨locked, chain⟩ := keeps locked
    have chains : (w.modify p f).rig.chain p = w.rig.chain p := by
      rw [Rig.chain_of (World.modify_processor known'), Rig.chain_of known', chain]
    exact ⟨locked, tracks, realized.later _ [] chains (by simp) rfl⟩

theorem move {x : Processor} (h : w.now.Prepared) (known : w.rig.processors[p]? = some x)
    (phase : Phase)
    (was : x.isExternal = true ∨ (phase.isUp = true → x.phase.isUp = true)) :
    (w.move p phase).now.Prepared := by
  refine change p [.moved p phase] h ?_ rfl ?_ ?_
  · intro q other
    simp [World.move, Ne.symm other]
  · intro q other
    exact ⟨by simp [other], rfl⟩
  · intro y known' internal up
    obtain rfl := Option.some.inj ((World.move_processor known).symm.trans known')
    have up' : x.phase.isUp = true := by
      obtain external | was := was
      · exact absurd (external.symm.trans internal) (by decide)
      · exact was up
    obtain ⟨locked, tracks, realized⟩ := h p x known internal up'
    have chain : (w.move p phase).rig.chain p = w.rig.chain p := by
      rw [Rig.chain_of known', Rig.chain_of known]
      rfl
    have alive : phase ≠ .closed := by
      rintro rfl
      cases up
    exact ⟨locked, tracks, realized.later _ [.moved p phase] chain
      (by simpa using alive.symm) rfl⟩

theorem newProcessor {x : Processor} (down : x.isExternal = true ∨ x.phase.isUp = false) :
    Keeps (S := S) Prepares (Run.newProcessor x) := by
  apply of_ensures
  intro w h
  simp only [Run.newProcessor, ensures_bind, ensures_get, ensures_modifyRig, ensures_pure]
  refine change w.rig.processors.length [] h ?_ rfl
    (fun _ _ => ⟨by simp, rfl⟩) ?_
  · intro q other
    rw [List.getElem?_append]
    grind
  · intro y known internal up
    obtain rfl : x = y := by simpa using known
    simp [internal, up] at down

theorem setChain (p : ProcessorId) (i : Nat) (chain : List PlugIn) :
    Keeps (S := S) Prepares (setChain p i chain) := by
  apply of_ensures
  intro w h
  apply Ensures.track
  intro x known
  split
  · exact ensures_pure.mpr h
  case h_2 t track =>
    split
    case h_1 u set =>
      obtain ⟨unlocked, -⟩ := Track.setChain_ok set
      apply Ensures.awaitChain
      refine ensures_bind.mpr (ensures_modifyProcessor.mpr (ensures_pure.mpr (modify h ?_)))
      intro y known' internal up
      obtain rfl := Option.some.inj (known.symm.trans known')
      refine ⟨internal, up, fun locked => ?_⟩
      have here := locked t (List.mem_of_getElem? track)
      exact absurd (here.symm.trans unlocked) (by decide)
    case h_2 => exact ensures_pure.mpr h

theorem setEnabled (p : ProcessorId) (i : Nat) (enabled : Bool) :
    Keeps (S := S) Prepares (Run.modifyTrack p i fun t => { t with enabled }) := by
  apply of_ensures
  intro w h
  refine ensures_modifyProcessor.mpr (modify h ?_)
  intro x _ internal up
  refine ⟨internal, up, fun locked => ⟨?_, ?_⟩⟩
  · intro t member
    obtain ⟨j, at_j⟩ := List.mem_iff_getElem?.mp member
    simp only [Processor.modifyTrack, List.getElem?_modify, Option.map_eq_map,
      Option.map_eq_some_iff] at at_j
    obtain ⟨u, at_j, rfl⟩ := at_j
    have before := locked u (List.mem_of_getElem? at_j)
    split
    · exact before
    · exact before
  · funext j
    simp only [Processor.chain, Processor.modifyTrack, List.getElem?_modify]
    cases x.tracks[j]? with
    | none => rfl
    | some t =>
      by_cases here : i = j
      · simp [here]
      · simp [here]

/-- A change that is nothing to the tracks of a processor and to its phase. -/
theorem aside {f : Processor → Processor} (external : ∀ x, (f x).isExternal = x.isExternal)
    (phase : ∀ x, (f x).phase = x.phase) (tracks : ∀ x, (f x).tracks = x.tracks) :
    Keeps (S := S) Prepares (Run.modifyProcessor p f) := by
  apply of_ensures
  intro w h
  refine ensures_modifyProcessor.mpr (modify h ?_)
  intro x _ internal up
  refine ⟨(external x).symm.trans internal, (phase x).symm ▸ up, fun locked => ⟨?_, ?_⟩⟩
  · rw [tracks]
    exact locked
  · funext i
    rw [Processor.chain, tracks, Processor.chain]

theorem plain : Plain (Prepares (S := S)) where
  toFlow := flow
  own _ _ h := h
  aside e aside := record (by cases e <;> first | rfl | cases aside)
  effects _ _ _ h := h
  story _ _ h := h
  mark _ := ensures_mark.mpr id
  sessions _ _ h := h
  newProcessor _ _ := newProcessor (.inr rfl)
  newExternal _ _ _ := newProcessor (.inl rfl)
  subscribe p _ := flow.bind (flow.processor p) fun _ =>
    flow.bind (aside (fun _ => rfl) (fun _ => rfl) fun _ => rfl) fun _ => record rfl
  setChain := setChain
  setEnabled := setEnabled
  counted _ := aside (fun _ => rfl) (fun _ => rfl) fun _ => rfl

theorem emit (answers : Answers Prepares again) (p : ProcessorId) (e : Event) :
    Keeps Prepares (emit app again p e) :=
  plain.emit (fun _ _ => record rfl) (fun _ _ _ => record rfl) again answers p e

/-- A processor passes to a phase that is no further up. -/
theorem settle (answers : Answers Prepares again) (h : w.now.Prepared) {phase : Phase} (e : Event)
    (a : α) (was : ∀ x, w.rig.processors[p]? = some x →
      x.isExternal = true ∨ (phase.isUp = true → x.phase.isUp = true)) :
    Ensures (do Run.moveTo p phase; Metering.emit app again p e; return a) w
      fun _ w' => w'.now.Prepared := by
  apply Ensures.moveTo
  intro x known
  have moved := move h known phase (was x known)
  refine Ensures.bind (ensures (emit answers p e) moved) ?_
  intro _ _ last
  exact ensures_pure.mpr last

/-- A processor that is up goes to any other phase. -/
theorem settle_up (answers : Answers Prepares again) (h : w.now.Prepared) {x : Processor}
    (known : w.rig.processors[p]? = some x) {phase : Phase} (e : Event) (a : α)
    (up : x.phase.isUp = true) :
    Ensures (do Run.moveTo p phase; Metering.emit app again p e; return a) w
      fun _ w' => w'.now.Prepared :=
  settle answers h e a fun y known' => .inr fun _ => by
    obtain rfl := Option.some.inj (known.symm.trans known')
    exact up

/-- A processor that could prepare its tracks has done so when it realizes. -/
theorem realized {x : Processor} (h : w.now.Prepared)
    (known : w.rig.processors[p]? = some x) (tends : Tends (w.move p .realizing) v)
    (gains : Gains (x.enabledTracks.flatMap x.chain) (x.enabledTracks.flatMap x.chain)
      (w.move p .realizing) v)
    {y : Processor} (known' : v.rig.processors[p]? = some y) (n : Notice) :
    ((((v.record (.readied p y.enabledTracks)).lockTracks p).record (.notice n)).move p
      .realized).now.Prepared := by
  have realizing := move h known .realizing (.inr fun up => by cases up)
  obtain ⟨done, journal, still⟩ := tends.journal
  obtain ⟨z, was, same⟩ := tends.agrees.origin known'
  obtain rfl := Option.some.inj ((World.move_processor known).symm.trans was)
  have chain : y.chain = x.chain := by
    rw [← Processor.shut_chain, same, Processor.shut_chain]
    rfl
  have enabled : y.enabledTracks = x.enabledTracks := by
    rw [← Processor.shut_enabledTracks, same, Processor.shut_enabledTracks]
    rfl
  have locked := World.modify_processor (f := Processor.lock) known'
  have moved : ((((v.record (.readied p y.enabledTracks)).lockTracks p).record (.notice n)).move p
      .realized).rig.processors[p]? = some { y.lock with phase := .realized } :=
    World.move_processor locked
  -- The entries since then are the one of this round, those of the preparation (`done`) and those
  -- before it. The preparation made exactly what `gains` says.
  refine change p [.moved p .realized, .notice n, .readied p y.enabledTracks]
    (of_tends tends realizing) ?_ rfl ?_ ?_
  · intro q other
    simp [World.move, World.lockTracks, Ne.symm other]
  · intro q other
    exact ⟨by simp, by simp [lastReadied, Ne.symm other]⟩
  · intro z here _ _
    obtain rfl := Option.some.inj (moved.symm.trans here)
    constructor
    · intro t member
      obtain ⟨u, -, rfl⟩ := List.mem_map.mp member
      rfl
    · have lockedChain : Processor.chain { y.lock with phase := .realized } = x.chain := by
        rw [← chain]
        funext i
        simp only [Processor.chain, Processor.lock, List.getElem?_map]
        cases y.tracks[i]? with
        | none => rfl
        | some t => rfl
      refine ⟨y.enabledTracks, [.moved p .realized, .notice n], done, w.journal, ?_, ?_, ?_, ?_,
        rfl⟩
      · simp [World.now, World.lockTracks, journal]
      · have accepted := gains.accepted
        rw [journal, acceptances_append] at accepted
        rw [World.now, Rig.chain_of here, lockedChain, enabled]
        exact List.append_cancel_left accepted
      · have opened := gains.opened
        rw [journal, openings_append] at opened
        rw [World.now, Rig.chain_of here, lockedChain, enabled]
        exact List.append_cancel_left opened
      · simp

section Operations

variable (answers : Answers Prepares again)
include answers

theorem configure (p : ProcessorId) : Keeps Prepares (configure app again p) := by
  apply of_ensures
  intro w h
  apply Ensures.processor
  intro x known
  split
  · exact ensures (plain.ask answers p _) h
  · split
    case h_1 =>
      apply Ensures.moveTo
      intro _ _
      have next := move h known .configuring (.inr fun up => by cases up)
      apply Ensures.notice
      refine settle answers (w := World.record _ _) ?_ _ _ fun _ _ => .inr fun up => by cases up
      exact ensures_record.mp (ensures (record rfl) next)
    all_goals exact ensures_pure.mpr h

theorem start (p : ProcessorId) : Keeps Prepares (start app again p) := by
  apply of_ensures
  intro w h
  apply Ensures.processor
  intro x known
  split
  · exact ensures (plain.ask answers p _) h
  · split
    case h_1 phase => exact settle_up answers h known _ _ (by rw [phase]; rfl)
    all_goals exact ensures_pure.mpr h

theorem stop (p : ProcessorId) : Keeps Prepares (stop app again p) := by
  apply of_ensures
  intro w h
  apply Ensures.processor
  intro x known
  split
  · exact ensures (plain.ask answers p _) h
  · split
    case h_1 phase => exact settle_up answers h known _ _ (by rw [phase]; rfl)
    all_goals exact ensures_pure.mpr h

theorem realize (quiet : app.QuietPlugIns) (p : ProcessorId) :
    Keeps Prepares (realize app again p) := by
  apply of_ensures
  intro w h
  apply Ensures.processor
  intro x known
  split
  · exact ensures (plain.ask answers p _) h
  · split
    case h_1 =>
      apply Ensures.moveTo
      intro _ _
      have realizing := move h known .realizing (.inr fun up => by cases up)
      have tends : Ensures (prepare app again p) (w.move p .realizing)
          fun _ => Tends (w.move p .realizing) :=
        Tends.tending.prepare (p := p) (Tends.tending.plugIns quiet) trivial _
      have begun : (w.move p .realizing).rig.processors[p]? = some { x with phase := .realizing } :=
        World.move_processor known
      have gains : Ensures (prepare app again p) (w.move p .realizing) fun r v =>
          r.isOk = true → Gains (x.enabledTracks.flatMap x.chain)
            (x.enabledTracks.flatMap x.chain) (w.move p .realizing) v :=
        Gains.prepare (x := { x with phase := .realizing }) quiet begun
      -- The preparation is looked at twice: what it leaves alone, however it ends, and what it has
      -- gained if it succeeds.
      refine Ensures.bind (P := fun r v => Tends (w.move p .realizing) v ∧ (r.isOk = true → _))
        (fun r v run => ⟨tends r v run, gains r v run⟩) ?_
      rintro r v ⟨tends, gains⟩
      cases r with
      | error f =>
        have failed := of_tends tends realizing
        apply Ensures.processor
        intro y _
        apply Ensures.notice
        refine settle answers (w := World.record _ _) ?_ _ _ fun _ _ => .inr fun up => by cases up
        exact ensures_record.mp (ensures (record rfl) failed)
      | ok =>
        apply Ensures.processor
        intro y known'
        apply Ensures.record
        apply Ensures.lockTracks
        apply Ensures.notice
        apply Ensures.moveTo
        intro _ _
        have ready := realized h known tends (gains rfl) known'
        refine Ensures.bind (ensures (emit answers p _) (ready _)) ?_
        intro _ _ last
        exact ensures_pure.mpr last
    all_goals exact ensures_pure.mpr h

theorem close (quiet : app.QuietPlugIns) (p : ProcessorId) :
    Keeps Prepares (close app again p) := by
  apply of_ensures
  intro w h
  apply Ensures.processor
  intro x known
  split
  · refine Ensures.bind (ensures (plain.ask answers p _) h) ?_
    intro _ _ last
    exact ensures_pure.mpr last
  · split
    case isTrue =>
      apply Ensures.moveTo
      intro _ _
      -- The processor is not up any more, and nothing is asked of its tracks from here on.
      have closed := move h known .closed (.inr fun up => by cases up)
      have ends (n : Notice) : Keeps Prepares (do
          Run.notice n
          Metering.emit app again p .closed) :=
        plain.bind (plain.notice n) fun _ => emit answers p _
      split
      case isTrue =>
        have closes (i : Nat) : Keeps Prepares (closeTrack app again p i) := fun u =>
          (Tends.tending.closeTrack (p := p) (Tends.tending.plugIns quiet) trivial i u).mono
            fun _ _ => of_tends
        exact ensures (plain.bind (plain.each closes _) fun _ => ends _) closed
      case isFalse => exact ensures (ends _) closed
    case isFalse => exact ensures_pure.mpr h

end Operations

theorem lawful (quiet : app.QuietPlugIns) : Lawful app (Prepares (S := S)) where
  toPlain := plain
  configure _ answers := configure answers
  realize _ answers := realize answers quiet
  start _ answers := start answers
  stop _ answers := stop answers
  close _ answers := close answers quiet
  enter p phase := of_ensures fun w h => by
    apply Ensures.processor
    intro x known
    split
    case isTrue external => exact ensures_moveTo.mpr fun _ _ => move h known phase (.inl external)
    case isFalse => exact ensures_pure.mpr h
  emit again answers p e := by
    refine flow.bind (flow.processor p) fun x => ?_
    split
    · exact emit answers p e
    · exact flow.pure ()

end Prepares

/-- Where no processor is up yet, none is unprepared. -/
theorem Moment.prepared_of_run {app : Application S} (quiet : app.QuietPlugIns) {depth : Nat}
    {program : Program S α} {s : S} {a : α} {w : World S}
    (run : program.run (perform app depth) { app := s } = .ok (a, w)) : w.now.Prepared := by
  have start : (World.now { app := s }).Prepared := fun p x known => by simp [World.now] at known
  exact (Prepares.lawful quiet).program depth program _ a w run start

end Metering
