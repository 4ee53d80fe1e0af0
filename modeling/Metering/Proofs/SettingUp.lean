import Metering.Proofs.Fitting
import Metering.Proofs.Installing
import Metering.Proofs.Operating
/-!
The realization of a processor, with an effect or without. A processor that fits still fits with an
effect in place, and it realizes just if it fits. How far it comes then depends on the sessions that
hear of it.
-/

namespace Metering

variable {S α : Type}

/-- How far a processor comes when it realizes. It is started if a session in use that plays a
stream through it is set to start its streams. -/
def Rig.landing (r : Rig) (x : Processor) : Phase :=
  if x.subscribers.any (r.drives .realized) then .started else .realized

/-- Whoever puts an effect in place does not have to wait for the chain. -/
def Processor.Free (x : Processor) : Prop := ∀ i, effectPlace x.tracks = some i → i ∉ x.held

theorem Processor.Free.of_held {x : Processor} (nothing : x.held = []) : x.Free := by
  simp [Free, nothing]

theorem Processor.shut_effectPlace (x : Processor) :
    effectPlace x.shut.tracks = effectPlace x.tracks := by
  simp [effectPlace, firstAudio, Processor.shut, List.findIdx?_map, Function.comp_def,
    Option.any_map]

theorem Processor.Free.of_shut {x y : Processor} (same : y.shut = x.shut) (free : x.Free) :
    y.Free := by
  have place : effectPlace y.tracks = effectPlace x.tracks := by
    rw [← shut_effectPlace, same, shut_effectPlace]
  have held : y.held = x.held := (congrArg (·.held) same :)
  rwa [Free, place, held]

theorem Processor.lock_shut (x : Processor) : x.lock.shut = x.shut.lock := by
  simp [Processor.lock, Processor.shut]

section Wire

variable {m : Manner} {n : Nat} {x : Processor} {e : EffectId}

theorem Processor.wire_enabledTracks : (x.wire e).enabledTracks = x.enabledTracks := by
  have enabled (i : Nat) : ((x.wire e).tracks[i]?).any (·.enabled) =
      (x.tracks[i]?).any (·.enabled) := by
    rw [Processor.wire_track]
    cases x.tracks[i]? with
    | none => rfl
    | some t =>
      simp only [Option.map_some, Option.any_some]
      split
      · rfl
      · rfl
  have length : (x.wire e).tracks.length = x.tracks.length := by
    unfold wire
    split
    · rfl
    · exact List.length_modify ..
  simp only [enabledTracks, enabled, length]

/-- The effect fits wherever it is installed. -/
theorem Manner.Fits.wire (fits : m.Fits n x) (there : e < n) : m.Fits n (x.wire e) := by
  -- A chain is that of before, or the effect stands in it alone, on an audio track.
  have kind {P : Format → List PlugIn → Prop} (before : x.Chains x.enabledTracks P)
      (alone : ∀ f : Format, f.isAudio = true → P f [.effect e]) :
      (x.wire e).Chains (x.wire e).enabledTracks P := by
    rw [Processor.wire_enabledTracks]
    intro i member t track
    rw [Processor.wire_track, Option.map_eq_some_iff] at track
    obtain ⟨u, track, rfl⟩ := track
    split
    case isTrue first => exact alone u.format (firstAudio_isAudio first.1 track)
    case isFalse => exact before i member u track
  constructor
  · apply kind fits.agrees
    intro f audio
    exact ⟨f, by simp [Manner.answer, there, audio]⟩
  · apply kind fits.opens
    rintro f - y (_ | ⟨_, ⟨⟩⟩)
    trivial

end Wire

section Installing

variable {app : Application S} {again : {β : Type} → Call β → Run S β} {w : World S}
variable {p : ProcessorId} {x : Processor}

/-- An effect is put where it belongs. -/
theorem decorate_wires (known : w.rig.processors[p]? = some x) (e : EffectId) :
    (w.decorate p e (effectPlace x.tracks)).rig = w.rig.modifyProcessor p (·.wire e) := by
  have stays (still : x.wire e = x) : w.rig.modifyProcessor p (·.wire e) = w.rig :=
    Rig.modifyProcessor_of_fixed known still
  cases first : firstAudio x.tracks with
  | none =>
    have still : x.wire e = x := by rw [Processor.wire, first]
    rw [stays still, effectPlace, first]
    rfl
  | some i =>
    obtain ⟨⟨t, track, -⟩, -⟩ := firstAudio_eq_some.mp first
    have wired := Processor.wire_eq (e := e) first track
    by_cases takes : t.acceptsPlugIns = true ∧ t.locked = false
    · have place : effectPlace x.tracks = some i := by simp [effectPlace, first, track, takes]
      rw [if_pos takes] at wired
      rw [place]
      exact (Rig.modifyProcessor_congr_of known
        (wired.trans (Processor.modifyTrack_congr_of track rfl))).symm
    · have place : effectPlace x.tracks = none := by
        simpa [effectPlace, first, track] using takes
      rw [if_neg takes] at wired
      rw [place, stays (wired.trans (Processor.modifyTrack_of_fixed track rfl))]
      rfl

/-- An effect is installed if the first audio track takes it, and otherwise passed over. -/
theorem install_settles (known : w.rig.processors[p]? = some x) (internal : x.isExternal = false)
    (configured : x.phase.isConfigured = true) (free : x.Free) (e : EffectId) (side : Side) :
    Yields (install app again p e side) w fun _ w' =>
      w'.rig = w.rig.modifyProcessor p (·.wire e) := by
  have shows : trackControls app again p w = _ := trackControls_internal known internal
  rw [if_pos configured] at shows
  obtain ⟨n, installs⟩ := install_eq shows (fun i place holds =>
    free i place (Rig.held_of known ▸ holds)) e side
  exact ⟨_, _, installs, decorate_wires known e⟩

end Installing

section Realizing

variable {app : Application S} {m : Manner} (conforms : app.Conforms m)
variable {again : {β : Type} → Call β → Run S β} {depth : Nat}
variable {w : World S} {r : Rig} {p : ProcessorId} {x : Processor}
include conforms

/-- A processor that has realized is one that fits. -/
theorem realize_ensures (known : w.rig.processors[p]? = some x) (internal : x.isExternal = false)
    (configured : x.phase = .configured) :
    Ensures (realize app again p) w fun a _ => a = .ok () → m.Fits w.rig.effects.length x := by
  refine Ensures.processor_of known ?_
  simp only [internal, Bool.false_eq_true, if_false, configured]
  apply Ensures.moveTo
  intro _ _
  refine (prepare_ensures conforms (World.move_processor known)).bind ?_
  intro a v prepared
  cases a with
  | ok =>
    obtain ⟨agrees, opens⟩ := prepared rfl
    exact fun _ _ _ _ => ⟨agrees, opens⟩
  | error f =>
    have fails : Ensures (failRealize app again p f) v fun a _ => a = .error f := by
      refine ensures_bind.mpr fun _ _ _ => ensures_bind.mpr fun _ _ _ => ?_
      refine ensures_bind.mpr fun _ _ _ => ensures_bind.mpr fun _ _ _ => ?_
      exact ensures_pure.mpr rfl
    refine fails.mono ?_
    rintro _ _ rfl
    nofun

namespace Rig.Near

theorem emit_realized (near : r.Near w.rig) (known : r.processors[p]? = some x)
    (internal : x.isExternal = false) (realized : x.phase = .realized)
    (attended : r.Attends x.subscribers) :
    Yields (Metering.emit app (perform app (depth + 2)) p .realized) w fun _ w' =>
      (r.setPhase p (r.landing x)).Near w'.rig := by
  apply near.emit known
  intro v near
  refine (near.each_realized conforms.toSilences known internal (.inl realized) attended
    (List.Subset.refl _)).mono ?_
  intro _ w' told
  unfold Rig.landing
  split at told
  case isTrue drives => rwa [if_pos drives, ← Rig.advance_of known realized]
  case isFalse still =>
    rwa [if_neg still, Rig.setPhase_of known realized]

/-- A configured processor that fits is realized. -/
theorem realize (near : r.Near w.rig) (known : r.processors[p]? = some x)
    (internal : x.isExternal = false) (configured : x.phase = .configured) (free : x.held = [])
    (fits : m.Fits r.effects.length x) (attended : r.Attends x.subscribers) :
    Yields (realize app (perform app (depth + 2)) p) w fun a w' => a = .ok () ∧
      (r.modifyProcessor p fun z => { z.lock with phase := r.landing x }).Near w'.rig := by
  obtain ⟨z, there, phase, -, external⟩ := near.meets known
  apply Yields.processor there
  simp only [external, internal, Bool.false_eq_true, if_false, phase, configured]
  refine (near.moveTo known .realizing).bind ?_
  intro _ v moved
  have realizing : (r.setPhase p .realizing).processors[p]? = some { x with phase := .realizing } :=
    Rig.modifyProcessor_known known _
  obtain ⟨y, found, alike⟩ := moved.known realizing
  have fits' : m.Fits r.effects.length y := Manner.Fits.of_shut alike ⟨fits.agrees, fits.opens⟩
  have free : y.held = [] := (congrArg (·.held) alike).trans free
  refine (prepare_yields conforms found free (moved.effects ▸ fits')).bind ?_
  rintro _ v ⟨rfl, prepared⟩
  have near := moved.trans prepared
  obtain ⟨y, found, -⟩ := near.known realizing
  apply Yields.processor found
  apply Yields.record
  apply yields_bind.mpr
  apply yields_modifyProcessor.mpr
  apply yields_bind.mpr
  apply yields_notice.mpr
  have locked := near.modify (p := p) Processor.lock_shut
  refine Yields.bind (locked.moveTo (Rig.modifyProcessor_known realizing _) .realized) ?_
  intro _ v done
  have whole : ((r.setPhase p .realizing).modifyProcessor p Processor.lock).setPhase p .realized =
      r.modifyProcessor p fun z => { z.lock with phase := .realized } := by
    simp only [Rig.setPhase, Rig.modifyProcessor_comp]
    rfl
  rw [whole] at done
  have realized := Rig.modifyProcessor_known known fun z => { z.lock with phase := .realized }
  refine (emit_realized conforms done realized internal rfl attended).bind ?_
  intro _ v told
  refine yields_pure.mpr ⟨rfl, ?_⟩
  rw [Rig.setPhase, Rig.modifyProcessor_comp] at told
  exact told

end Rig.Near

end Realizing

end Metering
