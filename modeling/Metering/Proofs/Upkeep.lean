import Metering.Proofs.Balance
/-!
Plug-ins in balance. If the plug-ins do not call back when they are offered formats, opened and
closed, then at every moment at which the application has the rig before it, plug-ins were opened
oftener than closed by as much as they are in use. Open are the chains of the processors that are
up, on the tracks that were enabled when these realized.
-/

namespace Metering

variable {S α : Type}

theorem Phase.down_of_hadNot {a : Phase} (h : ¬a.hadRealized = true) : a.isUp = false := by
  cases a <;> first | rfl | exact absurd rfl h

/-- Open chains are locked and belong to processors of the rig that are up. -/
structure Processor.Sound (x : Processor) : Prop where
  locked : ∀ (i : Nat) (t : Track), x.tracks[i]? = some t → t.isOpen = true → t.locked = true
  up : ∀ (i : Nat) (t : Track), x.tracks[i]? = some t → t.isOpen = true →
    x.isExternal = false ∧ x.phase.isUp = true

/-- The open chains are those of the tracks that were enabled when the processor realized. -/
def Processor.Ready (x : Processor) (p : ProcessorId) (journal : List Entry) : Prop :=
  x.isExternal = false → x.phase.isUp = true → lastReadied p journal = some x.openTracks

structure Moment.Balanced (m : Moment) : Prop where
  net : ∀ k, net k m.journal = m.rig.inUse k
  sound : ∀ (p : ProcessorId) (x : Processor), m.rig.processors[p]? = some x → x.Sound
  ready : ∀ (p : ProcessorId) (x : Processor),
    m.rig.processors[p]? = some x → x.Ready p m.journal

structure World.Balanced (w : World S) : Prop where
  now : w.now.Balanced
  moments : ∀ m ∈ w.moments, m.Balanced

/-- Balanced but for what a processor has open. -/
structure World.Apart (p : ProcessorId) (w : World S) : Prop where
  sound : ∀ (q : ProcessorId) (x : Processor), q ≠ p → w.rig.processors[q]? = some x → x.Sound
  ready : ∀ (q : ProcessorId) (x : Processor), q ≠ p →
    w.rig.processors[q]? = some x → x.Ready q w.journal
  moments : ∀ m ∈ w.moments, m.Balanced

def Balances (w w' : World S) : Prop := w.Balanced → w'.Balanced

theorem Processor.Sound.of_shut {x : Processor}
    (shut : ∀ (i : Nat) (t : Track), x.tracks[i]? = some t → t.isOpen = false) : x.Sound where
  locked i t known isOpen := absurd ((shut i t known).symm.trans isOpen) Bool.noConfusion
  up i t known isOpen := absurd ((shut i t known).symm.trans isOpen) Bool.noConfusion

theorem Processor.inUse_of_shut {x : Processor} {k : Kind}
    (shut : ∀ (i : Nat) (t : Track), x.tracks[i]? = some t → t.isOpen = false) :
    x.inUse k = 0 := by
  have unused (t : Track) (member : t ∈ x.tracks) : t.inUse k = 0 := by
    obtain ⟨i, known⟩ := List.mem_iff_getElem?.mp member
    simp [Track.inUse, shut i t known]
  simp [Processor.inUse, List.map_congr_left unused, List.map_const']

theorem Processor.Sound.shut {x : Processor} (h : x.Sound)
    (down : x.isExternal = true ∨ x.phase.isUp = false) (i : Nat) (t : Track)
    (known : x.tracks[i]? = some t) : t.isOpen = false := by
  cases isOpen : t.isOpen with
  | false => rfl
  | true =>
    obtain ⟨internal, up⟩ := h.up i t known isOpen
    simp [internal, up] at down

/-- A chain can be exchanged only while it is not locked. -/
theorem Track.setChain_ok {t u : Track} {chain : List PlugIn} (h : t.setChain chain = .ok u) :
    t.locked = false ∧ u = { t with chain } := by
  unfold Track.setChain at h
  split at h
  · cases h
  · split at h
    · cases h
    · cases h
      exact ⟨by simpa using ‹¬t.locked = true›, rfl⟩

section Apart

variable {p : ProcessorId} {w v : World S}

theorem World.Balanced.apart (h : w.Balanced) (p : ProcessorId) : w.Apart p where
  sound q x _ := h.now.sound q x
  ready q x _ := h.now.ready q x
  moments := h.moments

theorem World.Apart.balanced (h : w.Apart p) (net : ∀ k, net k w.journal = w.rig.inUse k)
    (own : ∀ (x : Processor), w.rig.processors[p]? = some x → x.Sound ∧ x.Ready p w.journal) :
    w.Balanced where
  now :=
    { net
      sound := fun q x known => by
        by_cases same : q = p
        · exact (own x (same ▸ known)).1
        · exact h.sound q x same known
      ready := fun q x known => by
        by_cases same : q = p
        · exact same ▸ (own x (same ▸ known)).2
        · exact h.ready q x same known }
  moments := h.moments

theorem World.Apart.modify (h : w.Apart p) (f : Processor → Processor) :
    (w.modify p f).Apart p where
  sound q x other known := by
    exact h.sound q x other (by simpa [Ne.symm other] using known)
  ready q x other known := by
    exact h.ready q x other (by simpa [Ne.symm other] using known)
  moments := h.moments

theorem World.Apart.record (h : w.Apart p) {e : Entry}
    (about : ∀ q tracks, e = .readied q tracks → q = p) : (w.record e).Apart p where
  sound := h.sound
  ready q x other known internal up := by
    have before := h.ready q x other known internal up
    cases e with
    | readied r tracks =>
      obtain rfl := about r tracks rfl
      simpa [lastReadied, Ne.symm other] using before
    | _ => exact before
  moments := h.moments

theorem World.Apart.move (h : w.Apart p) (phase : Phase) : (w.move p phase).Apart p :=
  (h.modify _).record fun _ _ => nofun

theorem Stage.apart {f : Nat → Bool} (stage : Stage w p f v) (h : w.Apart p) : v.Apart p where
  sound q x other known := by
    exact h.sound q x other (by simpa [stage.processors, Ne.symm other] using known)
  ready q x other known internal up := by
    have known' : w.rig.processors[q]? = some x := by
      simpa [stage.processors, Ne.symm other] using known
    exact (stage.readied q).trans (h.ready q x other known' internal up)
  moments := stage.moments ▸ h.moments

end Apart

/-- A processor before and after a change that is nothing to its open chains. -/
structure Processor.Alike (x y : Processor) : Prop where
  inUse : ∀ k, y.inUse k = x.inUse k
  openTracks : y.openTracks = x.openTracks
  sound : x.Sound → y.Sound
  up : y.isExternal = false → y.phase.isUp = true → x.isExternal = false ∧ x.phase.isUp = true

section Alike

variable {x : Processor}

/-- A change of one track that leaves it as open and as locked as it was. -/
theorem Processor.modifyTrack_flags {i : Nat} {g : Track → Track}
    (isOpen : ∀ t, x.tracks[i]? = some t → (g t).isOpen = t.isOpen)
    (locked : ∀ t, x.tracks[i]? = some t → (g t).locked = t.locked) (j : Nat) :
    ((x.modifyTrack i g).tracks[j]?).map (fun t => (t.isOpen, t.locked)) =
      (x.tracks[j]?).map fun t => (t.isOpen, t.locked) := by
  simp only [Processor.modifyTrack, List.getElem?_modify]
  cases known : x.tracks[j]? with
  | none => rfl
  | some t =>
    by_cases here : i = j
    · subst here
      simp [isOpen t known, locked t known]
    · simp [here]

/-- A change of one track that leaves open chains alone. -/
theorem Processor.modifyTrack_inUse {i : Nat} {g : Track → Track}
    (isOpen : ∀ t, x.tracks[i]? = some t → (g t).isOpen = t.isOpen)
    (chain : ∀ t, x.tracks[i]? = some t → t.isOpen = true → (g t).chain = t.chain) (k : Kind) :
    (x.modifyTrack i g).inUse k = x.inUse k := by
  cases known : x.tracks[i]? with
  | none =>
    have same := List.modify_eq_self (f := g) (List.getElem?_eq_none_iff.mp known)
    simp [Processor.inUse, Processor.modifyTrack, same]
  | some t =>
    have whole := sum_modify (Track.inUse k) g known
    have part : (g t).inUse k = t.inUse k := by
      simp only [Track.inUse, isOpen t known]
      split
      · rw [chain t known ‹_›]
      · rfl
    rw [part] at whole
    exact Nat.add_right_cancel whole

theorem Processor.Alike.modifyTrack {i : Nat} {g : Track → Track}
    (isOpen : ∀ t, x.tracks[i]? = some t → (g t).isOpen = t.isOpen)
    (locked : ∀ t, x.tracks[i]? = some t → (g t).locked = t.locked)
    (chain : ∀ t, x.tracks[i]? = some t → t.isOpen = true → (g t).chain = t.chain) :
    x.Alike (x.modifyTrack i g) := by
  have flags := modifyTrack_flags isOpen locked
  have origin {j : Nat} {t : Track} (known : (x.modifyTrack i g).tracks[j]? = some t) :
      ∃ u, x.tracks[j]? = some u ∧ u.isOpen = t.isOpen ∧ u.locked = t.locked := by
    have same := flags j
    rw [known, Option.map_some, eq_comm, Option.map_eq_some_iff] at same
    simpa using same
  refine ⟨modifyTrack_inUse isOpen chain, ?_, fun sound => ⟨?_, ?_⟩,
    fun internal up => ⟨internal, up⟩⟩
  · have any (j : Nat) : ((x.modifyTrack i g).tracks[j]?).any (·.isOpen) =
        (x.tracks[j]?).any (·.isOpen) := by
      have same := congrArg (Option.any (·.1)) (flags j)
      simpa only [Option.any_map] using same
    simp only [Processor.openTracks, any]
    simp [Processor.modifyTrack]
  · intro j t known isOpen
    obtain ⟨u, known, open', locked'⟩ := origin known
    exact locked' ▸ sound.locked j u known (open'.trans isOpen)
  · intro j t known isOpen
    obtain ⟨u, known, open', -⟩ := origin known
    exact sound.up j u known (open'.trans isOpen)

theorem Processor.Alike.withPhase {phase : Phase} (sound : x.Sound)
    (same : x.isExternal = true ∨ x.phase.isUp = phase.isUp) :
    x.Alike { x with phase } where
  inUse _ := rfl
  openTracks := rfl
  sound _ :=
    { locked := sound.locked
      up := fun i t known isOpen => by
        obtain ⟨internal, up⟩ := sound.up i t known isOpen
        obtain external | same := same
        · exact absurd (internal.symm.trans external) Bool.noConfusion
        · exact ⟨internal, same.symm.trans up⟩ }
  up internal up := by
    obtain external | same := same
    · exact absurd (external.symm.trans internal) Bool.noConfusion
    · exact ⟨internal, same.trans up⟩

end Alike

section Changes

variable {p : ProcessorId} {w v : World S} {x : Processor}

theorem World.Balanced.modify (h : w.Balanced) {f : Processor → Processor}
    (alike : ∀ x, x.Sound → w.rig.processors[p]? = some x → x.Alike (f x)) :
    (w.modify p f).Balanced := by
  have alike (x : Processor) (known : w.rig.processors[p]? = some x) : x.Alike (f x) :=
    alike x (h.now.sound p x known) known
  refine ((h.apart p).modify f).balanced (fun k => ?_) fun y known' => ?_
  · rw [Rig.inUse_same fun x known => (alike x known).inUse k]
    exact h.now.net k
  · rw [World.modify_processors, List.getElem?_modify_eq] at known'
    obtain ⟨x, known, rfl⟩ := Option.map_eq_some_iff.mp known'
    refine ⟨(alike x known).sound (h.now.sound p x known), fun internal up => ?_⟩
    obtain ⟨internal, up⟩ := (alike x known).up internal up
    rw [(alike x known).openTracks]
    exact h.now.ready p x known internal up

theorem World.Balanced.record (h : w.Balanced) {e : Entry} (idle : e.isIdle = true) :
    (w.record e).Balanced := by
  have same := Shifts.of_idle (w := w) idle
  refine ⟨⟨fun k => ?_, h.now.sound, fun q x known internal up => ?_⟩, h.moments⟩
  · exact (same.net k).trans ((Int.add_zero _).trans (h.now.net k))
  · exact (same.readied q).trans (h.now.ready q x known internal up)

theorem World.Balanced.move (h : w.Balanced) (known : w.rig.processors[p]? = some x)
    {phase : Phase} (same : x.isExternal = true ∨ x.phase.isUp = phase.isUp) :
    (w.move p phase).Balanced :=
  World.Balanced.record (h.modify fun y sound known' => by
    obtain rfl : x = y := by simpa [known] using known'
    exact .withPhase sound same) rfl

theorem Processor.lock_inUse (x : Processor) (k : Kind) : x.lock.inUse k = x.inUse k :=
  congrArg List.sum List.map_map

theorem Processor.lock_openTracks (x : Processor) : x.lock.openTracks = x.openTracks := by
  simp [Processor.openTracks, Processor.lock, Option.any_map]

/-- A processor that could open its plug-ins is ready with these open. -/
theorem Stage.realized (stage : Stage w p (fun i => decide (i ∈ x.enabledTracks)) v)
    (h : w.Balanced) (known : w.rig.processors[p]? = some x) (internal : x.isExternal = false)
    {y : Processor} (known' : v.rig.processors[p]? = some y) (n : Notice) :
    ((((v.record (.readied p y.enabledTracks)).lockTracks p).record (.notice n)).move p
      .realized).Balanced := by
  have y_eq : x.withOpen (fun i => decide (i ∈ x.enabledTracks)) = y := by
    simpa [stage.processors, known] using known'
  have locked := World.modify_processor (f := Processor.lock) known'
  have recorded : (v.record (.readied p y.enabledTracks)).Apart p :=
    (stage.apart (h.apart p)).record fun _ _ same => by cases same; rfl
  have apart :
      (((v.record (.readied p y.enabledTracks)).lockTracks p).record (.notice n)).Apart p :=
    (recorded.modify _).record fun _ _ => nofun
  refine (apart.move _).balanced (fun k => ?_) fun z here => ?_
  · have lock : (v.lockTracks p).rig.inUse k = v.rig.inUse k :=
      Rig.inUse_same fun y _ => y.lock_inUse k
    have store : (v.lockTracks p |>.move p .realized).rig.inUse k = (v.lockTracks p).rig.inUse k :=
      Rig.inUse_same fun _ _ => rfl
    refine Eq.trans ?_ ((stage.balance k).trans (by exact_mod_cast (store.trans lock).symm))
    simp [Metering.net, Entry.opens, Entry.closes]
  · obtain rfl := Option.some.inj ((World.move_processor locked).symm.trans here)
    refine ⟨⟨fun i t track _ => ?_, fun i t track _ => ⟨?_, rfl⟩⟩, fun _ _ => ?_⟩
    · simp only [Processor.lock, List.getElem?_map, Option.map_eq_some_iff] at track
      obtain ⟨_, -, rfl⟩ := track
      rfl
    · exact y_eq ▸ internal
    · have openTracks : y.openTracks = y.enabledTracks := by
        rw [← y_eq, Processor.withOpen_openTracks, Processor.withOpen_enabledTracks]
      have same : Processor.openTracks { y.lock with phase := .realized } = y.openTracks :=
        y.lock_openTracks
      simp [lastReadied, same, openTracks]

end Changes

end Metering
