import Metering.Proofs.Upkeep
/-!
What every operation does for the balance of plug-ins, and so what an application can count on at
every moment at which it has the rig before it.
-/

namespace Metering

variable {S α : Type} {app : Application S} {again : {β : Type} → Call β → Run S β}

namespace Balances

variable {w v : World S} {p : ProcessorId}

theorem flow : Flow (Balances (S := S)) := ⟨fun _ => id, fun first second h => second (first h)⟩

theorem of_ensures {m : Run S α}
    (h : ∀ w : World S, w.Balanced → Ensures m w fun _ w' => w'.Balanced) : Keeps Balances m :=
  fun w a w' run balanced => h w balanced a w' run

theorem ensures {m : Run S α} (keeps : Keeps Balances m) (h : w.Balanced) :
    Ensures m w fun _ w' => w'.Balanced :=
  fun a w' run => keeps w a w' run h

theorem record {e : Entry} (idle : e.isIdle = true) : Keeps (S := S) Balances (Run.record e) :=
  of_ensures fun _ h => ensures_record.mpr (h.record idle)

theorem modify {f : Processor → Processor} (alike : ∀ x : Processor, x.Sound → x.Alike (f x)) :
    Keeps (S := S) Balances (Run.modifyProcessor p f) :=
  of_ensures fun _ h => ensures_modifyProcessor.mpr (h.modify fun x sound _ => alike x sound)

/-- A change that is nothing to the tracks of a processor and to its phase. -/
theorem aside {f : Processor → Processor} (external : ∀ x, (f x).isExternal = x.isExternal)
    (phase : ∀ x, (f x).phase = x.phase) (tracks : ∀ x, (f x).tracks = x.tracks) :
    Keeps (S := S) Balances (Run.modifyProcessor p f) := by
  refine modify fun x sound => ⟨fun k => ?_, ?_, fun _ => ⟨?_, ?_⟩, fun internal up => ?_⟩
  · rw [Processor.inUse, tracks, Processor.inUse]
  · rw [Processor.openTracks, tracks, Processor.openTracks]
  · rw [tracks]
    exact sound.locked
  · rw [tracks, phase, external]
    exact sound.up
  · exact ⟨(external x).symm.trans internal, phase x ▸ up⟩

theorem newProcessor {x : Processor}
    (shut : ∀ (i : Nat) (t : Track), x.tracks[i]? = some t → t.isOpen = false)
    (down : x.isExternal = true ∨ x.phase.isUp = false) :
    Keeps (S := S) Balances (Run.newProcessor x) := by
  refine of_ensures fun w h => ?_
  simp only [Run.newProcessor, ensures_bind, ensures_get, ensures_modifyRig, ensures_pure]
  have cases {q : ProcessorId} {y : Processor}
      (known : (w.rig.processors ++ [x])[q]? = some y) :
      w.rig.processors[q]? = some y ∨ y = x := by
    rw [List.getElem?_append] at known
    grind
  refine ⟨⟨fun k => ?_, fun q y known => ?_, fun q y known internal up => ?_⟩, h.moments⟩
  · simpa [World.now, Rig.inUse, Processor.inUse_of_shut shut] using h.now.net k
  · obtain known | rfl := cases known
    · exact h.now.sound q y known
    · exact .of_shut shut
  · obtain known | rfl := cases known
    · exact h.now.ready q y known internal up
    · simp [internal, up] at down

theorem mark : Keeps (S := S) Balances Run.mark :=
  of_ensures fun w h => ensures_mark.mpr ⟨⟨h.now.net, h.now.sound, h.now.ready⟩, fun m seen => by
    obtain rfl | before := List.mem_cons.mp seen
    · exact h.now
    · exact h.moments m before⟩

theorem setChain (p : ProcessorId) (i : Nat) (chain : List PlugIn) :
    Keeps (S := S) Balances (setChain p i chain) := by
  apply of_ensures
  intro w h
  apply Ensures.track
  intro x known
  split
  · exact ensures_pure.mpr h
  case h_2 t track =>
    split
    case h_1 t' set =>
      apply Ensures.awaitChain
      refine ensures_bind.mpr (ensures_modifyProcessor.mpr (ensures_pure.mpr (h.modify ?_)))
      intro y sound known'
      obtain rfl : x = y := by simpa [known] using known'
      obtain ⟨unlocked, rfl⟩ := Track.setChain_ok set
      refine .modifyTrack (fun u known => ?_) (fun u known => ?_) fun u known isOpen => ?_
      all_goals obtain rfl : t = u := by simpa [track] using known
      · rfl
      · rfl
      · exact absurd ((sound.locked i t known isOpen).symm.trans unlocked) Bool.noConfusion
    case h_2 => exact ensures_pure.mpr h

theorem plain : Plain (Balances (S := S)) where
  toFlow := flow
  own _ _ h := ⟨⟨h.now.net, h.now.sound, h.now.ready⟩, h.moments⟩
  aside e aside := record (by cases e <;> first | rfl | cases aside)
  effects _ _ _ h := ⟨⟨h.now.net, h.now.sound, h.now.ready⟩, h.moments⟩
  story _ _ h := ⟨⟨h.now.net, h.now.sound, h.now.ready⟩, h.moments⟩
  mark := mark
  sessions _ _ h := ⟨⟨h.now.net, h.now.sound, h.now.ready⟩, h.moments⟩
  newProcessor _ _ := newProcessor (by simp [Processor.new, Track.new]) (.inr rfl)
  newExternal _ _ _ := newProcessor (by simp [Processor.newExternal, Processor.new, Track.new])
    (.inl rfl)
  subscribe p x := flow.bind (flow.processor p) fun _ =>
    flow.bind (aside (fun _ => rfl) (fun _ => rfl) fun _ => rfl) fun _ => record rfl
  setChain := setChain
  setEnabled p i enabled := modify fun _ _ =>
    .modifyTrack (fun _ _ => rfl) (fun _ _ => rfl) fun _ _ _ => rfl
  counted _ := aside (fun _ => rfl) (fun _ => rfl) fun _ => rfl

theorem emit (answers : Answers Balances again) (p : ProcessorId) (e : Event) :
    Keeps Balances (emit app again p e) :=
  plain.emit (fun _ _ => record rfl) (fun _ _ _ => record rfl) again answers p e

/-- A processor passes to a phase in which its chains are as open as before. -/
theorem settle (answers : Answers Balances again) (h : w.Balanced) {x : Processor}
    (known : w.rig.processors[p]? = some x) {phase : Phase} (e : Event) (a : α)
    (same : x.isExternal = true ∨ x.phase.isUp = phase.isUp) :
    Ensures (do Run.moveTo p phase; Metering.emit app again p e; return a) w
      fun _ w' => w'.Balanced := by
  apply Ensures.moveTo
  intro _ _
  refine Ensures.bind (ensures (emit answers p e) (h.move known same)) fun _ _ last => ?_
  exact ensures_pure.mpr last

/-- A closed processor that has none of its plug-ins open any more. -/
theorem closed_balanced {f : Nat → Bool} {x : Processor} (h : w.Balanced)
    (closed : (w.move p .closed).rig.processors[p]? = some x) (down : x.phase.isUp = false)
    (shut : ∀ i < x.tracks.length, f i = false) (stage : Stage (w.move p .closed) p f v) :
    v.Balanced := by
  refine (stage.apart ((h.apart p).move _)).balanced stage.balance fun y known => ?_
  rw [stage.processors, List.getElem?_modify_eq, closed] at known
  obtain rfl := Option.some.inj known
  refine ⟨.of_shut fun i t track => ?_, fun _ up => ?_⟩
  · have within := (List.getElem?_eq_some_iff.mp track).1
    rw [Processor.withOpen_isOpen track]
    exact shut i (by simpa [Processor.withOpen] using within)
  · exact absurd (down.symm.trans up) Bool.noConfusion

section Operations

variable (answers : Answers Balances again)
include answers

theorem configure (p : ProcessorId) : Keeps Balances (configure app again p) := by
  apply of_ensures
  intro w h
  apply Ensures.processor
  intro x known
  split
  · exact ensures (plain.ask answers p _) h
  · split
    case h_1 phase =>
      have next : (w.move p .configuring).Balanced := h.move known (.inr (by rw [phase]; rfl))
      apply Ensures.moveTo
      intro _ _
      apply Ensures.notice
      exact settle answers (next.record rfl) (World.move_processor known) _ _ (.inr rfl)
    all_goals exact ensures_pure.mpr h

theorem start (p : ProcessorId) : Keeps Balances (start app again p) := by
  apply of_ensures
  intro w h
  apply Ensures.processor
  intro x known
  split
  · exact ensures (plain.ask answers p _) h
  · split
    case h_1 phase =>
      exact settle answers h known _ _ (.inr (by rw [phase]; rfl))
    all_goals exact ensures_pure.mpr h

theorem stop (p : ProcessorId) : Keeps Balances (stop app again p) := by
  apply of_ensures
  intro w h
  apply Ensures.processor
  intro x known
  split
  · exact ensures (plain.ask answers p _) h
  · split
    case h_1 phase =>
      exact settle answers h known _ _ (.inr (by rw [phase]; rfl))
    all_goals exact ensures_pure.mpr h

/-- A processor that could not open its plug-ins has none open. -/
theorem failRealize (stage : Stage w p (fun _ => false) v) (h : w.Balanced) {x : Processor}
    (known : w.rig.processors[p]? = some x) (down : x.phase.isUp = false) (f : Fault) :
    Ensures (failRealize app again p f) v fun _ w' => w'.Balanced := by
  have own (y : Processor) (known' : v.rig.processors[p]? = some y) :
      y = x.withOpen fun _ => false := by
    rw [stage.processors, List.getElem?_modify_eq, known] at known'
    exact (Option.some.inj known').symm
  have balanced : v.Balanced := (stage.apart (h.apart p)).balanced stage.balance fun y known' => by
    obtain rfl := own y known'
    exact ⟨.of_shut fun i t track => Processor.withOpen_isOpen track,
      fun _ up => absurd (down.symm.trans up) Bool.noConfusion⟩
  apply Ensures.processor
  intro y known'
  apply Ensures.notice
  obtain rfl := own y known'
  exact settle answers (balanced.record rfl) known' _ _ (.inr down)

theorem realize (quiet : app.QuietPlugIns) (p : ProcessorId) :
    Keeps Balances (realize app again p) := by
  apply of_ensures
  intro w h
  apply Ensures.processor
  intro x known
  split
  · exact ensures (plain.ask answers p _) h
  case isFalse internal =>
    split
    case h_1 phase =>
      have realizing : (w.move p .realizing).Balanced := h.move known (.inr (by rw [phase]; rfl))
      have known : (w.move p .realizing).rig.processors[p]? = some { x with phase := .realizing } :=
        World.move_processor known
      have shut := (realizing.now.sound p _ known).shut (.inr rfl)
      apply Ensures.moveTo
      intro _ _
      -- A stage says which tracks are open: none of them when the preparation begins.
      refine Ensures.bind (Stage.prepare quiet realizing.now.net known shut) fun r v stage => ?_
      cases r with
      | error f => exact failRealize answers stage realizing known rfl f
      | ok =>
        apply Ensures.processor
        intro y known'
        apply Ensures.record
        apply Ensures.lockTracks
        apply Ensures.notice
        apply Ensures.moveTo
        intro _ _
        have realized := stage.realized realizing known (by simpa using internal) known'
        refine Ensures.bind (ensures (emit answers p _) (realized _)) fun _ _ last => ?_
        exact ensures_pure.mpr last
    all_goals exact ensures_pure.mpr h

theorem close (quiet : app.QuietPlugIns) (p : ProcessorId) :
    Keeps Balances (close app again p) := by
  apply of_ensures
  intro w h
  apply Ensures.processor
  intro x known
  split
  · refine Ensures.bind (ensures (plain.ask answers p _) h) fun _ _ last => ?_
    exact ensures_pure.mpr last
  · split
    case isTrue alive =>
      apply Ensures.moveTo
      intro _ _
      have closed : (w.move p .closed).rig.processors[p]? = some { x with phase := .closed } :=
        World.move_processor known
      have net (k : Kind) : net k (w.move p .closed).journal = (w.move p .closed).rig.inUse k := by
        have same : (w.move p .closed).rig.inUse k = w.rig.inUse k := Rig.inUse_same fun _ _ => rfl
        simpa [same, World.now, Metering.net, Entry.opens, Entry.closes] using h.now.net k
      -- Both ways end with all tracks shut: in one they have just been closed, in the other none
      -- was ever open.
      have finish {f : Nat → Bool} {v : World S} (stage : Stage (w.move p .closed) p f v)
          (shut : ∀ i < x.tracks.length, f i = false) (n : Notice) :
          Ensures (do Run.notice n; Metering.emit app again p .closed) v
            fun _ w' => w'.Balanced := by
        have balanced := closed_balanced h closed rfl shut stage
        apply Ensures.notice
        exact ensures (emit answers p _) (balanced.record rfl)
      split
      case isTrue =>
        have begin : Stage (w.move p .closed) p (fun i => (x.tracks[i]?).any (·.isOpen)) _ :=
          .start net fun y known' i t track => by
            obtain rfl := Option.some.inj (closed.symm.trans known')
            simp [show x.tracks[i]? = some t from track]
        refine Ensures.bind (begin.closeTracks quiet _) fun _ _ stage => ?_
        exact finish stage (fun i within => by simp [within]) _
      case isFalse down =>
        have begin : Stage (w.move p .closed) p (fun _ => false) _ :=
          .start net fun y known' i t track => by
            obtain rfl := Option.some.inj (closed.symm.trans known')
            exact (h.now.sound p x known).shut (.inr (Phase.down_of_hadNot down)) i t track
        exact finish begin (fun _ _ => rfl) _
    case isFalse => exact ensures_pure.mpr h

end Operations

theorem lawful (quiet : app.QuietPlugIns) : Lawful app (Balances (S := S)) where
  toPlain := plain
  configure _ answers := configure answers
  realize _ answers := realize answers quiet
  start _ answers := start answers
  stop _ answers := stop answers
  close _ answers := close answers quiet
  enter p phase := of_ensures fun w h => by
    apply Ensures.processor
    intro x known
    split
    case isTrue external =>
      exact ensures_moveTo.mpr fun _ _ => h.move known (.inl external)
    case isFalse => exact ensures_pure.mpr h
  emit again answers p e := by
    refine flow.bind (flow.processor p) fun x => ?_
    split
    · exact emit answers p e
    · exact flow.pure ()

end Balances

/-- Nothing of a kind is in use that stands in no open chain of a processor that is up. -/
theorem Moment.Balanced.unused {m : Moment} (h : m.Balanced) {k : Kind}
    (idle : ∀ (p : ProcessorId) (x : Processor), m.rig.processors[p]? = some x →
      x.isExternal = false → x.phase.isUp = true → ∀ t ∈ x.tracks, t.chain.countP k = 0) :
    m.rig.inUse k = 0 := by
  have unused (x : Processor) (member : x ∈ m.rig.processors) : x.inUse k = 0 := by
    obtain ⟨p, known⟩ := List.mem_iff_getElem?.mp member
    have each (t : Track) (member : t ∈ x.tracks) : t.inUse k = 0 := by
      obtain ⟨i, track⟩ := List.mem_iff_getElem?.mp member
      unfold Track.inUse
      split
      case isTrue isOpen =>
        obtain ⟨internal, up⟩ := (h.sound p x known).up i t track isOpen
        exact idle p x known internal up t member
      case isFalse => rfl
    simp [Processor.inUse, List.map_congr_left each, List.map_const']
  simp [Rig.inUse, List.map_congr_left unused, List.map_const']

section Runs

variable {app : Application S} {depth : Nat} {program : Program S α} {s : S} {a : α} {w : World S}

/-- In a rig in which nothing was opened yet, all is balanced, and so it stays. -/
theorem World.balanced_of_run (quiet : app.QuietPlugIns)
    (run : program.run (perform app depth) { app := s } = .ok (a, w)) : w.Balanced := by
  have start : World.Balanced { app := s } :=
    ⟨⟨fun _ => rfl, by simp [World.now], by simp [World.now]⟩, by simp⟩
  exact (Balances.lawful quiet).program depth program _ a w run start

theorem Moment.balanced_of_run (quiet : app.QuietPlugIns)
    (run : program.run (perform app depth) { app := s } = .ok (a, w)) {m : Moment}
    (seen : m ∈ w.now :: w.moments) : m.Balanced := by
  have balanced := World.balanced_of_run quiet run
  obtain rfl | before := List.mem_cons.mp seen
  · exact balanced.now
  · exact balanced.moments m before

end Runs

/-- Whenever the application has the rig before it, plug-ins of every kind were opened oftener than
closed by as many places as they have in open chains. Open are the chains of the tracks that were
enabled when a processor realized, as long as the processor is up. -/
theorem plugIns_in_balance (quiet : app.QuietPlugIns) {depth : Nat} {program : Program S α} {s : S}
    {a : α} {w : World S} (run : program.run (perform app depth) { app := s } = .ok (a, w))
    {m : Moment} (seen : m ∈ w.now :: w.moments) :
    (∀ k, net k m.journal = m.rig.inUse k ∧ 0 ≤ net k m.journal) ∧
    (∀ (p : ProcessorId) (x : Processor), m.rig.processors[p]? = some x →
      (∀ (i : Nat) (t : Track), x.tracks[i]? = some t → t.isOpen = true →
        t.locked = true ∧ x.isExternal = false ∧ x.phase.isUp = true) ∧
      (x.isExternal = false → x.phase.isUp = true →
        lastReadied p m.journal = some x.openTracks)) ∧
    ∀ k, (∀ (p : ProcessorId) (x : Processor), m.rig.processors[p]? = some x →
      x.isExternal = false → x.phase.isUp = true → ∀ t ∈ x.tracks, t.chain.countP k = 0) →
      net k m.journal = 0 := by
  have here : m.Balanced := Moment.balanced_of_run quiet run seen
  refine ⟨fun k => ⟨here.net k, ?_⟩, fun p x known => ⟨fun i t track isOpen => ?_, ?_⟩, ?_⟩
  · rw [here.net k]
    exact Int.natCast_nonneg _
  · have sound := here.sound p x known
    exact ⟨sound.locked i t track isOpen, sound.up i t track isOpen⟩
  · exact here.ready p x known
  · intro k idle
    rw [here.net k, here.unused idle]
    rfl

/-- A plug-in with two places in one chain. -/
def Program.doubled : Program Unit Unit := do
  let p ← .send (.newProcessor "p" [⟨.audio .telephone, true⟩])
  let _ ← .send (.configure p)
  let _ ← .send (.setChain p 0 [.codec 0 "c", .codec 0 "c"])
  let _ ← .send (.realize p)
  .send (.close p)

theorem plugIns_in_balance_doubled :
    ∃ w, Program.doubled.run (perform (.silent Unit) 3) { app := () } = .ok ((), w) ∧
      (Application.silent Unit).QuietPlugIns ∧
      ∀ m ∈ w.now :: w.moments, net (· == .codec 0 "c") m.journal =
        m.rig.inUse (· == .codec 0 "c") := by
  have quiet : (Application.silent Unit).QuietPlugIns :=
    ⟨fun _ _ => trivial, fun _ => trivial, fun _ => trivial⟩
  have ends : ∃ w, Program.doubled.run (perform (.silent Unit) 3) { app := () } = .ok ((), w) :=
    ⟨_, rfl⟩
  obtain ⟨w, run⟩ := ends
  exact ⟨w, run, quiet, fun m seen => ((plugIns_in_balance quiet run seen).1 _).1⟩

end Metering
