import Metering.Proofs.Keeping
import Metering.Proofs.Levels
/-!
A session that captures. From the connection of a fresh processor to its start everything comes
about by events: the session installs its effect when the processor is configured and realizes it.
-/

namespace Metering

variable {S : Type}

/-- Programs that keep to themselves come to an end and leave the rig as it is. -/
theorem Program.Quiet.yields {α : Type} {p : Program S α} (quiet : p.Quiet)
    {again : {β : Type} → Call β → Run S β} (w : World S) :
    Yields (p.run again) w fun _ w' => w'.rig = w.rig ∧ levels w'.journal = levels w.journal := by
  induction p generalizing w with
  | done a => exact yields_pure.mpr ⟨rfl, rfl⟩
  | update f next ih =>
    simp only [Program.run, yields_bind, yields_get, yields_set]
    exact ih _ (quiet _) _
  | look f next ih => exact quiet.elim
  | note text next ih =>
    apply Yields.record
    apply (ih quiet _).mono
    intro _ _ rest
    exact ⟨rest.1, rest.2.trans (by simp [Entry.level?])⟩
  | call c next ih => exact quiet.elim

/-- What takes part when a session captures: a processor that was made for some formats, the
session, its effect and the listener to whom the effect tells its levels. -/
structure Setup where
  formats : List Format
  processor : ProcessorId
  session : SessionId
  effect : EffectId
  listener : ListenerId

namespace Setup

structure Progress where
  phase : Phase := .unrealized
  /-- The session uses the processor and hears of its events. -/
  connected : Bool := false
  /-- The effect is in its place. -/
  wired : Bool := false

/-- How far a session that captures has come. -/
structure Stage extends Progress where
  users : Nat := 1
  calculator : Calculator
  told : List (ListenerId × Int)

/-- The chain of a track. The first audio track gets the effect. -/
def chain (u : Setup) (wired : Bool) (i : Nat) : List PlugIn :=
  if wired = true ∧ u.formats.findIdx? Format.isAudio = some i then [.effect u.effect] else []

/-- A track of the processor, as it stands at a stage. -/
structure Fits (u : Setup) (g : Progress) (i : Nat) (t : Track) : Prop where
  format : u.formats[i]? = some t.format
  enabled : t.enabled = true
  accepts : t.acceptsPlugIns = true
  unlocked : g.phase.rank ≤ Phase.configured.rank → t.locked = false
  chain : t.chain = u.chain g.wired i

structure Shape (u : Setup) (g : Progress) (x : Processor) : Prop where
  isExternal : x.isExternal = false
  phase : x.phase = g.phase
  subscribers : x.subscribers = if g.connected then [.capture u.session] else []
  length : x.tracks.length = u.formats.length
  free : x.held = []
  fits : ∀ (i : Nat) (t : Track), x.tracks[i]? = some t → u.Fits g i t

structure Scene (u : Setup) (g : Stage) (w : World S) : Prop where
  processor : ∃ x, w.rig.processors[u.processor]? = some x ∧ u.Shape g.toProgress x
  session : ∃ y, w.rig.sessions[u.session]? = some y ∧ y.localEffect = u.effect ∧
    y.capture = (if g.connected then some u.processor else none) ∧ y.users = g.users
  effect : ∃ z, w.rig.effects[u.effect]? = some z ∧ z.calculator = g.calculator ∧
    z.listener = some u.listener
  levels : Metering.levels w.journal = g.told

variable {u : Setup} {g g' : Stage} {w : World S}

theorem Shape.formats {v : Progress} {x : Processor} (h : u.Shape v x) :
    x.tracks.map (·.format) = u.formats := by
  apply List.ext_getElem?
  intro i
  rw [List.getElem?_map]
  cases at_i : x.tracks[i]? with
  | some t => exact (h.fits i t at_i).format.symm
  | none =>
    have beyond := List.getElem?_eq_none_iff.mp at_i
    exact (List.getElem?_eq_none_iff.mpr (h.length ▸ beyond)).symm

/-- The first audio track is found by the formats. -/
theorem Shape.firstAudio {v : Progress} {x : Processor} (h : u.Shape v x) :
    firstAudio x.tracks = u.formats.findIdx? Format.isAudio := by
  rw [← h.formats, List.findIdx?_map]
  rfl

namespace Scene

/-- Neither the journal of other things nor the moments matter. -/
theorem same {w' : World S} (h : u.Scene g w) (rig : w'.rig = w.rig)
    (told : Metering.levels w'.journal = Metering.levels w.journal) : u.Scene g w' where
  processor := rig ▸ h.processor
  session := rig ▸ h.session
  effect := rig ▸ h.effect
  levels := told.trans h.levels

theorem record (h : u.Scene g w) {e : Entry} (aside : e.level? = none) :
    u.Scene g (w.record e) :=
  h.same rfl (by simp [aside])

/-- A change of the processor. -/
theorem modify (h : u.Scene g w) (a : Phase) (wired : Bool) {f : Processor → Processor}
    (shape : ∀ x, u.Shape g.toProgress x → u.Shape { g.toProgress with phase := a, wired } (f x)) :
    u.Scene { g with phase := a, wired } (w.modify u.processor f) where
  processor := by
    obtain ⟨x, known, was⟩ := h.processor
    exact ⟨f x, World.modify_processor known, shape x was⟩
  session := h.session
  effect := h.effect
  levels := h.levels

theorem moveTo (h : u.Scene g w) {a : Phase} (later : g.phase.rank ≤ a.rank) :
    Yields (Run.moveTo u.processor a) w fun _ => u.Scene { g with phase := a } := by
  obtain ⟨x, known, -⟩ := h.processor
  simp only [Run.moveTo, yields_bind, yields_processor, yields_modifyProcessor, yields_record]
  have moved : ∀ y, u.Shape g.toProgress y →
      u.Shape { g.toProgress with phase := a } { y with phase := a } := by
    intro y was
    refine { was with
      phase := rfl
      fits := fun i t at_i => ?_ }
    have fits := was.fits i t at_i
    exact { fits with unlocked := fun early => fits.unlocked (Nat.le_trans later early) }
  exact ⟨x, known, (h.modify a g.wired moved).record rfl⟩

theorem lockTracks (h : u.Scene g w) (late : Phase.configured.rank < g.phase.rank) :
    Yields (lockTracks u.processor) w fun _ => u.Scene g := by
  have locked : ∀ y, u.Shape g.toProgress y → u.Shape g.toProgress
      { y with tracks := y.tracks.map fun t => { t with locked := true } } := by
    intro y was
    refine { was with length := ?_, fits := fun i t at_i => ?_ }
    · simpa using was.length
    · rw [List.getElem?_map, Option.map_eq_some_iff] at at_i
      obtain ⟨t, at_i, rfl⟩ := at_i
      exact { was.fits i t at_i with unlocked := fun early => absurd late (Nat.not_lt.mpr early) }
  exact yields_modifyProcessor.mpr (h.modify g.phase g.wired locked)

/-- While a chain is held, things stand as they do apart from that. -/
theorem holding {α : Type} {calls : Run S α} {P : α → Prop} (h : u.Scene g w) (i : Nat)
    (does : ∀ v, u.Scene g (v.modify u.processor (·.letGo)) →
      Yields calls v fun a w' => P a ∧ u.Scene g (w'.modify u.processor (·.letGo))) :
    Yields (Run.holding u.processor i calls) w fun a w' => P a ∧ u.Scene g w' := by
  obtain ⟨x, known, shape⟩ := h.processor
  have free : i ∉ x.held := by simp [shape.free]
  exact Yields.held known free (does _ ((w.letGo_hold u.processor i).symm ▸ h))

theorem modifyTrack (h : u.Scene g w) (wired : Bool) (i : Nat) {f : Track → Track}
    (here : ∀ t, u.Fits g.toProgress i t → u.Fits { g.toProgress with wired } i (f t))
    (there : ∀ j, j ≠ i → u.chain g.wired j = u.chain wired j) :
    u.Scene { g with wired } (w.modify u.processor fun x => x.modifyTrack i f) := by
  refine h.modify g.phase wired fun x was => ?_
  refine { was with length := ?_, fits := fun j t at_j => ?_ }
  · simpa [Processor.modifyTrack] using was.length
  · simp only [Processor.modifyTrack, List.getElem?_modify, Option.map_eq_map,
      Option.map_eq_some_iff] at at_j
    obtain ⟨t, at_j, rfl⟩ := at_j
    have fits := was.fits j t at_j
    split
    · next eq =>
      subst eq
      exact here t fits
    · next ne => exact { fits with chain := fits.chain.trans (there j (Ne.symm ne)) }

/-- It makes no difference whether an effect is in place that has no place. -/
theorem rewire (h : u.Scene g w) {wired : Bool}
    (same : ∀ i, u.chain g.wired i = u.chain wired i) : u.Scene { g with wired } w := by
  obtain ⟨x, known, shape⟩ := h.processor
  refine { h with processor := ⟨x, known, { shape with fits := fun i t at_i => ?_ }⟩ }
  have fits := shape.fits i t at_i
  exact { fits with chain := fits.chain.trans (same i) }

theorem notice (h : u.Scene g w) (n : Notice) :
    Yields (Run.notice n) w fun _ => u.Scene g :=
  yields_notice.mpr (h.record rfl)

theorem sessionNotice (h : u.Scene g w) (n : SessionNotice) :
    Yields (sessionNotice u.session n) w fun _ => u.Scene g := by
  obtain ⟨y, known, -⟩ := h.session
  exact Yields.session known (h.notice _)

/-- The number of users changes. -/
theorem used (h : u.Scene g w) {n : Nat} {f : Session → Session}
    (counts : ∀ y : Session, y.users = g.users → f y = { y with users := n }) :
    Yields (Run.modifySession u.session f) w fun _ => u.Scene { g with users := n } := by
  obtain ⟨y, known, effect, capture, users⟩ := h.session
  refine yields_modifySession.mpr ⟨h.processor, ⟨f y, ?_, ?_⟩, h.effect, h.levels⟩
  · simp [known]
  · rw [counts y users]
    exact ⟨effect, capture, rfl⟩

/-- The session does not end while others use it. -/
theorem release (h : u.Scene g w) (others : 1 < g.users) (app : Application S)
    (again : {β : Type} → Call β → Run S β) :
    Yields (releaseSession app again u.session) w fun _ =>
      u.Scene { g with users := g.users - 1 } := by
  obtain ⟨y, known, -, -, users⟩ := h.session
  have leaves := h.used (f := fun x => { x with users := y.users - 1 }) (n := g.users - 1)
    fun _ _ => by rw [users]
  apply Yields.session known
  apply leaves.bind
  intro _ w' scene
  rw [if_neg (by omega)]
  exact yields_pure.mpr scene

section Events

variable {app : Application S} {again : {β : Type} → Call β → Run S β}

/-- A configured processor lets the effect become the chain of its first audio track. -/
theorem setChain (h : u.Scene g w) (configured : g.phase = .configured) {i : Nat}
    (first : u.formats.findIdx? Format.isAudio = some i) :
    Yields (setChain u.processor i [.effect u.effect]) w fun r w' =>
      r = .ok () ∧ u.Scene { g with wired := true } w' := by
  obtain ⟨x, known, shape⟩ := h.processor
  have within : i < x.tracks.length := by
    rw [shape.length]
    exact (List.findIdx?_eq_some_iff_getElem.mp first).1
  have at_i := List.getElem?_eq_getElem within
  have fits := shape.fits i _ at_i
  have unlocked := fits.unlocked (by simp [configured])
  have puts : x.tracks[i].setChain [.effect u.effect] =
      .ok { x.tracks[i] with chain := [.effect u.effect] } := by
    simp [Track.setChain, fits.accepts, unlocked]
  have elsewhere : ∀ j, j ≠ i → u.chain g.wired j = u.chain true j := by
    intro j ne
    simp [chain, first, Ne.symm ne]
  have placed := h.modifyTrack true i
    (f := fun _ => { x.tracks[i] with chain := [.effect u.effect] })
    (fun _ _ => { fits with chain := by simp [chain, first] }) elsewhere
  apply Yields.track known
  rw [at_i]
  dsimp only
  rw [puts]
  apply Yields.awaitChain known
  · simp [shape.free]
  · exact yields_bind.mpr (yields_modifyProcessor.mpr (yields_pure.mpr ⟨rfl, placed⟩))

/-- Within the configured phase the effect finds its place, if there is one. -/
theorem install (h : u.Scene g w) (configured : g.phase = .configured) (side : Side) :
    Yields (install app again u.processor u.effect side) w fun _ =>
      u.Scene { g with wired := true } := by
  obtain ⟨x, known, shape⟩ := h.processor
  have shows : Yields (trackControls app again u.processor) w fun r w' =>
      r = .ok x.tracks ∧ w = w' := by
    apply Yields.processor known
    simp [shape.isExternal, shape.phase, configured, Phase.isConfigured, Phase.rank]
  apply shows.bind
  rintro _ _ ⟨rfl, rfl⟩
  dsimp only
  rw [shape.firstAudio]
  cases first : u.formats.findIdx? Format.isAudio with
  | none =>
    have nowhere : ∀ i, u.chain g.wired i = u.chain true i := by
      intro i
      simp [chain, first]
    apply ((h.rewire nowhere).notice _).bind
    intro _ _ scene
    exact yields_pure.mpr scene
  | some i =>
    apply (h.setChain configured first).bind
    rintro _ w' ⟨rfl, scene⟩
    apply (scene.notice _).bind
    intro _ _ scene
    exact yields_pure.mpr scene

/-- An audio format goes through the chain of its track as it is. -/
theorem negotiate {k : Processor → Processor} (h : u.Scene g (w.modify u.processor k)) {i : Nat}
    {f : Format} (at_i : u.formats[i]? = some f) :
    Yields (Chain.negotiate app again (u.chain g.wired i) f) w fun r w' =>
      r = .ok f ∧ u.Scene g (w'.modify u.processor k) := by
  unfold Setup.chain
  split
  · next here =>
    obtain ⟨z, known, calculator, listener⟩ := h.effect
    have audio : f.isAudio = true := by
      obtain ⟨within, audio, -⟩ := List.findIdx?_eq_some_iff_getElem.mp here.2
      rw [List.getElem?_eq_getElem within, Option.some.injEq] at at_i
      exact at_i ▸ audio
    simp only [Chain.negotiate, Chain.offer, Chain.offerEffect, LevelEffect.offer, yields_bind,
      yields_effect]
    refine ⟨z, known, ?_⟩
    simp only [audio, if_true, yields_modifyEffect, yields_pure]
    have known : w.rig.effects[u.effect]? = some z := known
    have offered : (w.rig.effects.modify u.effect fun _ =>
        { z with inputFormat := some f })[u.effect]? = some { z with inputFormat := some f } := by
      simp [known]
    have accepted := h.record (e := .accepted (.effect u.effect)) rfl
    exact Yields.record (yields_pure.mpr
      ⟨rfl, { accepted with effect := ⟨_, offered, calculator, listener⟩ }⟩)
  · exact yields_pure.mpr ⟨rfl, h⟩

theorem negotiateTracks (h : u.Scene g w) (is : List Nat) :
    Yields (negotiateTracks app again u.processor is) w fun r w' =>
      r = .ok () ∧ u.Scene g w' := by
  induction is generalizing w with
  | nil => exact yields_pure.mpr ⟨rfl, h⟩
  | cons i is ih =>
    obtain ⟨x, known, shape⟩ := h.processor
    apply Yields.track known
    cases at_i : x.tracks[i]? with
    | none => exact ih h
    | some t =>
      have fits := shape.fits i t at_i
      dsimp only
      rw [fits.chain]
      apply Yields.bind (h.holding i fun _ scene => scene.negotiate fits.format)
      rintro _ w' ⟨rfl, scene⟩
      exact ih scene

theorem openTrack (h : u.Scene g w) (i : Nat) :
    Yields (openTrack app again u.processor i) w fun r w' => r = .ok () ∧ u.Scene g w' := by
  obtain ⟨x, known, shape⟩ := h.processor
  apply Yields.track known
  cases at_i : x.tracks[i]? with
  | none => exact yields_pure.mpr ⟨rfl, h⟩
  | some t =>
    have opens (w : World S) (h : u.Scene g (w.modify u.processor (·.letGo))) :
        Yields (Chain.openAll app again [] t.chain) w fun r w' =>
          r = .ok () ∧ u.Scene g (w'.modify u.processor (·.letGo)) := by
      rw [(shape.fits i t at_i).chain, Setup.chain]
      split
      · simp only [Chain.openAll, Chain.openPlugIn, yields_bind, yields_record, yields_pure]
        exact ⟨trivial, h.record (e := .opened (.effect u.effect)) rfl⟩
      · exact yields_pure.mpr ⟨rfl, h⟩
    apply (h.holding i opens).bind
    rintro _ w' ⟨rfl, scene⟩
    refine yields_bind.mpr (yields_modifyProcessor.mpr (yields_pure.mpr ⟨rfl, ?_⟩))
    exact scene.modifyTrack g.wired i (fun _ fits => { fits with }) fun _ _ => rfl

theorem openTracks (h : u.Scene g w) (before is : List Nat) :
    Yields (openTracks app again u.processor before is) w fun r w' =>
      r = .ok () ∧ u.Scene g w' := by
  induction is generalizing w before with
  | nil => exact yields_pure.mpr ⟨rfl, h⟩
  | cons i is ih =>
    apply (h.openTrack i).bind
    rintro _ w' ⟨rfl, scene⟩
    exact ih scene _

theorem prepare (h : u.Scene g w) :
    Yields (prepare app again u.processor) w fun r w' => r = .ok () ∧ u.Scene g w' := by
  obtain ⟨x, known, -⟩ := h.processor
  apply Yields.processor known
  apply (h.negotiateTracks x.enabledTracks).bind
  rintro _ w' ⟨rfl, scene⟩
  exact scene.openTracks [] _

/-- An event reaches the session alone. -/
theorem emit (h : u.Scene g w) (connected : g.connected = true) {e : Event}
    (hears : ∀ w', u.Scene g w' →
      Yields (hear app again u.processor e (.capture u.session)) w' fun _ => u.Scene g') :
    Yields (emit app again u.processor e) w fun _ => u.Scene g' := by
  have announced := h.record (e := .announced u.processor e) rfl
  obtain ⟨x, known, shape⟩ := announced.processor
  have delivers : Yields (deliver app again u.processor e (.capture u.session))
      (w.record (.announced u.processor e)) fun _ => u.Scene g' :=
    Yields.record (hears _ (announced.record rfl))
  apply Yields.record
  apply Yields.processor known
  rw [shape.subscribers, if_pos connected]
  apply delivers.bind
  intro _ _ scene
  exact yields_pure.mpr scene

end Events

section Nested

variable {app : Application S} {depth : Nat}

/-- What the session does while it hears of an event happens with one more user. -/
theorem whileUsed (h : u.Scene g w) (used : 0 < g.users) (same : g'.users = g.users)
    {body : Run S Unit} (does : ∀ w', u.Scene { g with users := g.users + 1 } w' →
      Yields body w' fun _ => u.Scene { g' with users := g.users + 1 }) :
    Yields (whileUsed (perform app (depth + 1)) u.session body) w fun _ => u.Scene g' := by
  obtain ⟨y, known, -, -, users⟩ := h.session
  apply Yields.session known
  rw [if_pos (users ▸ used)]
  have enters := h.used (f := fun x => { x with users := x.users + 1 }) (n := g.users + 1)
    fun _ eq => by rw [eq]
  apply enters.bind
  intro _ _ scene
  apply (does _ scene).bind
  intro _ _ scene
  refine (scene.release (by simpa using used) app (perform app depth)).mono fun _ _ scene => ?_
  simpa [← same] using scene

/-- The session only notes that its processor has realized or started. -/
theorem hears (h : u.Scene g w) (used : 0 < g.users) {e : Event}
    (noted : e = .realized ∨ e = .started) :
    Yields (hear app (perform app (depth + 1)) u.processor e (.capture u.session)) w fun _ =>
      u.Scene g := by
  refine h.whileUsed used rfl fun w' scene => ?_
  obtain ⟨y, known, -⟩ := scene.session
  apply Yields.session known
  rcases noted with rfl | rfl
  · exact scene.sessionNotice _
  · exact scene.sessionNotice _

theorem realize (h : u.Scene g w) (configured : g.phase = .configured)
    (connected : g.connected = true) (used : 0 < g.users) :
    Yields (realize app (perform app (depth + 1)) u.processor) w fun r w' =>
      r = .ok () ∧ u.Scene { g with phase := .realized } w' := by
  obtain ⟨x, known, shape⟩ := h.processor
  apply Yields.processor known
  simp only [shape.isExternal, Bool.false_eq_true, if_false, shape.phase, configured]
  have begins := h.moveTo (a := .realizing) (by simp [configured, Phase.rank])
  apply begins.bind
  intro _ w' scene
  apply scene.prepare.bind
  rintro _ w' ⟨rfl, scene⟩
  obtain ⟨y, known, -⟩ := scene.processor
  apply Yields.processor known
  apply Yields.record
  have readied := scene.record (e := .readied u.processor y.enabledTracks) rfl
  apply (readied.lockTracks (by simp [Phase.rank])).bind
  intro _ w' scene
  apply (scene.notice _).bind
  intro _ w' scene
  have ends := scene.moveTo (a := .realized) (by simp [Phase.rank])
  apply ends.bind
  intro _ w' scene
  apply Yields.bind (scene.emit connected fun _ scene => scene.hears used (.inl rfl))
  intro _ _ scene
  exact yields_pure.mpr ⟨rfl, scene⟩

/-- When it hears that the processor is configured, the session installs its effect and realizes
the processor. -/
theorem hearsConfigured (h : u.Scene g w) (configured : g.phase = .configured)
    (connected : g.connected = true) (used : 0 < g.users) :
    Yields (hear app (perform app (depth + 2)) u.processor .configured (.capture u.session)) w
      fun _ => u.Scene { g with phase := .realized, wired := true } := by
  refine h.whileUsed used (by rfl) fun w' scene => ?_
  obtain ⟨y, known, effect, -⟩ := scene.session
  apply Yields.session known
  dsimp only
  rw [effect]
  apply (scene.install configured _).bind
  intro _ w' scene
  have realizes : Yields (perform app (depth + 2) (.realize u.processor)) w' fun r w' =>
      r = .ok () ∧ u.Scene { g with phase := .realized, wired := true, users := g.users + 1 } w' :=
    scene.realize configured connected (Nat.succ_pos _)
  apply realizes.bind
  rintro _ w' ⟨rfl, scene⟩
  exact yields_pure.mpr scene

theorem configure (h : u.Scene g w) (unrealized : g.phase = .unrealized)
    (connected : g.connected = true) (used : 0 < g.users) :
    Yields (configure app (perform app (depth + 2)) u.processor) w fun r w' =>
      r = .ok () ∧ u.Scene { g with phase := .realized, wired := true } w' := by
  obtain ⟨x, known, shape⟩ := h.processor
  apply Yields.processor known
  simp only [shape.isExternal, Bool.false_eq_true, if_false, shape.phase, unrealized]
  have begins := h.moveTo (a := .configuring) (by simp [unrealized, Phase.rank])
  apply begins.bind
  intro _ w' scene
  apply (scene.notice _).bind
  intro _ w' scene
  have ends := scene.moveTo (a := .configured) (by simp [Phase.rank])
  apply ends.bind
  intro _ w' scene
  apply Yields.bind (scene.emit connected fun _ scene =>
    scene.hearsConfigured rfl connected used)
  intro _ _ scene
  exact yields_pure.mpr ⟨rfl, scene⟩

/-- An operation on the session happens with one more user. -/
theorem duringUse {α : Type} {Q : α → Prop} (h : u.Scene g w) (used : 0 < g.users)
    (same : g'.users = g.users) {again : {β : Type} → Call β → Run S β} {body : Run S α}
    (does : ∀ w', u.Scene { g with users := g.users + 1 } w' →
      Yields body w' fun a w' => Q a ∧ u.Scene { g' with users := g.users + 1 } w') :
    Yields (duringUse app again u.session body) w fun a w' => Q a ∧ u.Scene g' w' := by
  have enters := h.used (f := fun x => { x with users := x.users + 1 }) (n := g.users + 1)
    fun _ eq => by rw [eq]
  apply enters.bind
  intro _ _ scene
  apply (does _ scene).bind
  rintro a w' ⟨holds, scene⟩
  have leaves := scene.release (by simpa using used) app again
  apply leaves.bind
  intro _ _ scene
  exact yields_pure.mpr ⟨holds, by simpa [← same] using scene⟩

/-- The session takes the processor in and subscribes to its events. -/
theorem connect (h : u.Scene g w) (unconnected : g.connected = false) :
    Yields (Run.modifySession u.session fun x => { x with capture := some u.processor }) w
      fun _ w' => Yields (subscribe u.processor (.capture u.session)) w' fun _ =>
        u.Scene { g with connected := true } := by
  obtain ⟨y, known, effect, -, users⟩ := h.session
  obtain ⟨x, made, shape⟩ := h.processor
  rw [yields_modifySession]
  refine Yields.processor made ?_
  refine yields_bind.mpr (yields_modifyProcessor.mpr (yields_record.mpr ?_))
  refine { processor := ?_, session := ?_, effect := h.effect, levels := ?_ }
  · refine ⟨_, World.modify_processor made, ?_⟩
    have tells : x.subscribers ++ [.capture u.session] = [.capture u.session] := by
      simp [shape.subscribers, unconnected]
    exact { shape with
      subscribers := tells, fits := fun i t at_i => { shape.fits i t at_i with } }
  · have takes : ((w.rig.sessions.modify u.session fun x =>
        { x with capture := some u.processor })[u.session]?) =
        some { y with capture := some u.processor } := by
      simp [known]
    exact ⟨_, takes, effect, rfl, users⟩
  · simpa [Entry.level?] using h.levels

/-- Connecting a fresh processor takes it all the way to the realized phase. -/
theorem connectCapture (h : u.Scene g w) (unrealized : g.phase = .unrealized)
    (unconnected : g.connected = false) (used : 0 < g.users) :
    Yields (perform app (depth + 3) (.connectCapture u.session u.processor)) w fun r w' =>
      r = .ok () ∧
        u.Scene { g with phase := .realized, connected := true, wired := true } w' := by
  refine h.duringUse (Q := fun r : Except Fault Unit => r = .ok ()) used (by rfl)
    fun w' scene => ?_
  obtain ⟨y, known, -, capture, -⟩ := scene.session
  apply Yields.session known
  simp only [capture, unconnected, Bool.false_eq_true, if_false]
  apply Yields.bind (scene.connect unconnected)
  intro _ w' subscribes
  apply subscribes.bind
  intro _ w' scene
  have configures : Yields (beginConfiguration app (perform app (depth + 2)) u.processor
      (captureUpdate app (perform app (depth + 2)) u.session u.processor .configured)) w'
      fun r w' => r = .ok () ∧ u.Scene { g with
        phase := .realized, connected := true, wired := true, users := g.users + 1 } w' := by
    obtain ⟨x, made, shape⟩ := scene.processor
    apply Yields.processor made
    simp only [shape.phase, unrealized]
    exact scene.configure unrealized rfl (Nat.succ_pos _)
  apply configures.bind
  rintro _ w' ⟨rfl, scene⟩
  exact yields_bind.mpr (yields_pure.mpr (yields_pure.mpr ⟨rfl, scene⟩))

/-- A session with a realized processor starts it. -/
theorem startSession (h : u.Scene g w) (realized : g.phase = .realized)
    (connected : g.connected = true) (used : 0 < g.users) :
    Yields (perform app (depth + 2) (.startSession u.session)) w fun r w' =>
      r = .ok () ∧ u.Scene { g with phase := .started } w' := by
  refine h.duringUse (Q := fun r : Except Fault Unit => r = .ok ()) used (by rfl)
    fun w' scene => ?_
  obtain ⟨y, known, -, capture, -⟩ := scene.session
  obtain ⟨x, made, shape⟩ := scene.processor
  have uses : Yields (Metering.capture u.session) w' fun r w'' =>
      r = .ok u.processor ∧ w' = w'' := by
    apply Yields.session known
    simp [capture, connected]
  have starts : Yields (start app (perform app (depth + 1)) u.processor) w' fun r w'' =>
      r = .ok () ∧ u.Scene { g with phase := .started, users := g.users + 1 } w'' := by
    apply Yields.processor made
    simp only [shape.isExternal, Bool.false_eq_true, if_false, shape.phase, realized]
    have begins := scene.moveTo (a := .started) (by simp [realized, Phase.rank])
    apply begins.bind
    intro _ _ scene
    apply Yields.bind (scene.emit connected fun _ scene =>
      scene.hears (Nat.succ_pos _) (.inr rfl))
    intro _ _ scene
    exact yields_pure.mpr ⟨rfl, scene⟩
  apply uses.bind
  rintro _ _ ⟨rfl, rfl⟩
  apply starts.bind
  rintro _ w' ⟨rfl, scene⟩
  exact yields_bind.mpr (yields_pure.mpr (yields_pure.mpr ⟨rfl, scene⟩))

end Nested

end Scene

end Setup

end Metering
