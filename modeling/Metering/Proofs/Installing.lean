import Metering.Proofs.Bringing
/-!
The installation of an effect, with everything that it leaves alone. Whatever a processor shows of
its tracks, the first audio track is the only one that can get the effect, and nothing but its chain
changes. Where it refuses, or where no tracks are shown, only a notice is written.
-/

namespace Metering

variable {S : Type}

/-- The first audio track is at this position, and it takes plug-ins still. -/
structure TakesEffect (tracks : List Track) (i : Nat) : Prop where
  track : ∃ t, tracks[i]? = some t ∧ t.format.isAudio = true ∧ t.acceptsPlugIns = true ∧
    t.locked = false
  least : ∀ j < i, ∀ t, tracks[j]? = some t → t.format.isAudio = false

/-- Where an effect goes if these are the tracks. -/
def effectPlace (tracks : List Track) : Option Nat :=
  (firstAudio tracks).filter fun i => (tracks[i]?).any fun t => t.acceptsPlugIns && !t.locked

/-- The effect alone becomes the chain of a track. -/
def World.decorate (w : World S) (p : ProcessorId) (e : EffectId) : Option Nat → World S
  | none => w
  | some i => w.modify p fun x => x.modifyTrack i fun t => { t with chain := [.effect e] }

theorem firstAudio_eq_some {tracks : List Track} {i : Nat} :
    firstAudio tracks = some i ↔ (∃ t, tracks[i]? = some t ∧ t.format.isAudio = true) ∧
      ∀ j < i, ∀ t, tracks[j]? = some t → t.format.isAudio = false := by
  rw [firstAudio, List.findIdx?_eq_some_iff_getElem]
  constructor
  · rintro ⟨within, audio, before⟩
    refine ⟨⟨_, List.getElem?_eq_getElem within, audio⟩, ?_⟩
    intro j earlier t there
    obtain ⟨_, rfl⟩ := List.getElem?_eq_some_iff.mp there
    exact Bool.eq_false_iff.mpr (before j earlier)
  · rintro ⟨⟨t, there, audio⟩, before⟩
    obtain ⟨within, rfl⟩ := List.getElem?_eq_some_iff.mp there
    refine ⟨within, audio, ?_⟩
    intro j earlier
    exact Bool.eq_false_iff.mp (before j earlier _ (List.getElem?_eq_getElem _))

theorem effectPlace_eq_some {tracks : List Track} {i : Nat} :
    effectPlace tracks = some i ↔ TakesEffect tracks i := by
  rw [effectPlace, Option.filter_eq_some_iff, firstAudio_eq_some, Option.any_eq_true]
  constructor
  · rintro ⟨⟨⟨t, there, audio⟩, before⟩, u, found, takes⟩
    obtain rfl := Option.some.inj (there.symm.trans found)
    exact ⟨⟨t, there, audio, by simpa using takes⟩, before⟩
  · rintro ⟨⟨t, there, audio, takes⟩, before⟩
    exact ⟨⟨⟨t, there, audio⟩, before⟩, t, there, by simpa using takes⟩

section Installing

variable {app : Application S} {again : {β : Type} → Call β → Run S β} {w v : World S}
variable {p : ProcessorId} {x : Processor} {shown : Except Fault (List Track)} {tracks : List Track}

/-- The tracks that are shown are those that the processor has then. -/
theorem trackControls_shows (shows : trackControls app again p w = .ok (.ok tracks, v)) :
    ∃ y, v.rig.processors[p]? = some y ∧ y.tracks = tracks := by
  have ensures : Ensures (trackControls app again p) w fun a v => ∀ tracks, a = .ok tracks →
      ∃ y, v.rig.processors[p]? = some y ∧ y.tracks = tracks := by
    apply Ensures.processor
    intro x known
    split
    case isTrue external =>
      apply Ensures.record
      refine ensures_bind.mpr fun r v _ => ?_
      cases r with
      | ok =>
        apply Ensures.processor
        intro y there
        exact ensures_pure.mpr fun _ same => ⟨y, there, Except.ok.inj same⟩
      | error f => exact ensures_pure.mpr nofun
    case isFalse internal =>
      split
      · exact ensures_pure.mpr fun _ same => ⟨x, known, Except.ok.inj same⟩
      · exact ensures_pure.mpr nofun
  exact ensures _ v shows tracks rfl

/-- A processor of the rig shows its tracks when it is configured, and nothing happens then. -/
theorem trackControls_internal (known : w.rig.processors[p]? = some x)
    (internal : x.isExternal = false) : trackControls app again p w = .ok
      (if x.phase.isConfigured then .ok x.tracks
        else .error (.notConfigured (x.name ++ " is " ++ x.phase.name)), w) := by
  refine (Run.bind_eq (Run.processor_eq known) _).trans ?_
  rw [if_neg (by simp [internal])]
  split
  · rfl
  · rfl

/-- Putting an effect where it has its place waits if the chain is held. -/
theorem setChain_stuck {i : Nat} (known : w.rig.processors[p]? = some x)
    (place : effectPlace x.tracks = some i) (held : i ∈ x.held) (e : EffectId) :
    setChain p i [.effect e] w = .error .stuck := by
  obtain ⟨⟨t, track, -, takes⟩, -⟩ := effectPlace_eq_some.mp place
  simp only [setChain_eq known track, Track.setChain_takes takes, if_pos held]

/-- Putting an effect into the first audio track succeeds just where the effect has its place,
unless the chain is held. -/
theorem setChain_decorates {i : Nat} (known : w.rig.processors[p]? = some x)
    (first : firstAudio x.tracks = some i)
    (free : ∀ j, effectPlace x.tracks = some j → j ∉ x.held) (e : EffectId) :
    ∃ r, setChain p i [.effect e] w = .ok (r, w.decorate p e (effectPlace x.tracks)) ∧
      effectPlace x.tracks = r.toOption.map fun _ => i := by
  obtain ⟨⟨t, track, -⟩, -⟩ := firstAudio_eq_some.mp first
  by_cases takes : t.acceptsPlugIns = true ∧ t.locked = false
  · have place : effectPlace x.tracks = some i := by simp [effectPlace, first, track, takes]
    have same : w.modify p (·.modifyTrack i fun _ => { t with chain := [.effect e] }) =
        w.decorate p e (some i) :=
      World.modify_congr_of known (Processor.modifyTrack_congr_of track rfl)
    refine ⟨.ok (), ?_, place⟩
    simp only [setChain_eq known track, Track.setChain_takes takes, if_neg (free i place)]
    rw [place, same]
  · have place : effectPlace x.tracks = none := by
      simpa [effectPlace, first, track] using takes
    obtain ⟨f, refuses⟩ := Track.setChain_refuses takes [.effect e]
    refine ⟨.error f, ?_, place⟩
    simp only [setChain_eq known track, refuses]
    rw [place]
    rfl

/-- An installation waits for a chain that is held. -/
theorem install_stuck {i : Nat} (shows : trackControls app again p w = .ok (.ok tracks, v))
    (place : effectPlace tracks = some i) (held : i ∈ v.rig.held p) (e : EffectId) (side : Side) :
    install app again p e side w = .error .stuck := by
  obtain ⟨y, known, rfl⟩ := trackControls_shows shows
  have first : firstAudio y.tracks = some i := (Option.filter_eq_some_iff.mp place).1
  refine (Run.bind_eq shows _).trans ?_
  simp only [first]
  exact Run.bind_stops (setChain_stuck known place (Rig.held_of known ▸ held) e) _

/-- What comes of an installation, given what the processor shows. -/
theorem install_eq (shows : trackControls app again p w = .ok (shown, v))
    (free : ∀ i, shown.toOption.bind effectPlace = some i → i ∉ v.rig.held p) (e : EffectId)
    (side : Side) : ∃ n, install app again p e side w =
      .ok (shown.toOption.bind effectPlace,
        (v.decorate p e (shown.toOption.bind effectPlace)).record (.notice (.install side n))) := by
  cases shown with
  | error f => exact ⟨.noControls f, Run.bind_eq shows _⟩
  | ok tracks =>
    obtain ⟨y, known, rfl⟩ := trackControls_shows shows
    simp only [Except.toOption, Option.bind_some] at free ⊢
    cases first : firstAudio y.tracks with
    | none =>
      have place : effectPlace y.tracks = none := by simp [effectPlace, first]
      refine ⟨.noAudioTrack, (Run.bind_eq shows _).trans ?_⟩
      rw [place]
      simp only [first]
      rfl
    | some i =>
      obtain ⟨r, sets, place⟩ := setChain_decorates known first
        (fun j here within => free j here (Rig.held_of known ▸ within)) e
      cases r with
      | ok =>
        refine ⟨.installed i, (Run.bind_eq shows _).trans ?_⟩
        simp only [first]
        refine (Run.bind_eq sets _).trans ?_
        rw [place]
        rfl
      | error f =>
        refine ⟨.refused f, (Run.bind_eq shows _).trans ?_⟩
        simp only [first]
        refine (Run.bind_eq sets _).trans ?_
        rw [place]
        rfl

/-- An effect gets the first audio track if the processor shows its tracks and that track takes
it. It is then the whole chain of that track, and nothing else of the rig changes. In every other
case nothing of the rig changes at all. Another processor than one of the rig may answer for its
tracks as it likes, if it answers. Only a plug-in of that very track, while it is called to agree on
a format, to open or to close, cannot have an effect installed: it would wait for itself. -/
theorem install_first_audio (known : w.rig.processors[p]? = some x)
    (answers : x.isExternal = true → ∃ shown v, trackControls app again p w = .ok (shown, v))
    (e : EffectId) (side : Side) :
    ∃ shown v, trackControls app again p w = .ok (shown, v) ∧
      (x.isExternal = false → v = w ∧ ((∃ tracks, shown = .ok tracks) ↔
        x.phase ∈ [.configured, .realizing, .realized, .started])) ∧
      (∀ tracks, shown = .ok tracks →
        ∃ y, v.rig.processors[p]? = some y ∧ y.tracks = tracks) ∧
      ((∃ tracks i, shown = .ok tracks ∧ TakesEffect tracks i ∧ i ∈ v.rig.held p ∧
          install app again p e side w = .error .stuck) ∨
        (∀ tracks i, shown = .ok tracks → TakesEffect tracks i → i ∉ v.rig.held p) ∧
        ∃ r n, install app again p e side w =
            .ok (r, (v.decorate p e r).record (.notice (.install side n))) ∧
          ∀ i, r = some i ↔ ∃ tracks, shown = .ok tracks ∧ TakesEffect tracks i) := by
  obtain ⟨shown, v, shows, own⟩ : ∃ shown v, trackControls app again p w = .ok (shown, v) ∧
      (x.isExternal = false → v = w ∧ ((∃ tracks, shown = .ok tracks) ↔
        x.phase ∈ [.configured, .realizing, .realized, .started])) := by
    cases external : x.isExternal with
    | true =>
      obtain ⟨shown, v, shows⟩ := answers external
      exact ⟨shown, v, shows, nofun⟩
    | false =>
      refine ⟨_, w, trackControls_internal known external, fun _ => ⟨rfl, ?_⟩⟩
      cases x.phase with
      | unrealized | configuring | closed => simp [Phase.isConfigured, Phase.rank]
      | configured | realizing | realized | started => simp [Phase.isConfigured, Phase.rank]
  refine ⟨shown, v, shows, own, ?_, ?_⟩
  · rintro tracks rfl
    exact trackControls_shows shows
  · have place (i : Nat) : shown.toOption.bind effectPlace = some i ↔
        ∃ tracks, shown = .ok tracks ∧ TakesEffect tracks i := by
      cases shown with
      | error f => simp [Except.toOption]
      | ok tracks => simp [Except.toOption, effectPlace_eq_some]
    by_cases held : ∃ tracks i, shown = .ok tracks ∧ TakesEffect tracks i ∧ i ∈ v.rig.held p
    · obtain ⟨tracks, i, rfl, takes, held⟩ := held
      exact .inl ⟨tracks, i, rfl, takes, held,
        install_stuck shows (effectPlace_eq_some.mpr takes) held e side⟩
    · have free (tracks : List Track) (i : Nat) (all : shown = .ok tracks)
          (takes : TakesEffect tracks i) : i ∉ v.rig.held p :=
        fun holds => held ⟨tracks, i, all, takes, holds⟩
      obtain ⟨n, runs⟩ := install_eq shows (fun i here => by
        obtain ⟨tracks, all, takes⟩ := (place i).mp here
        exact free tracks i all takes) e side
      exact .inr ⟨free, _, n, runs, place⟩

end Installing

/-- A configured processor with plug-ins on a video track and on the first of two audio tracks. -/
def Processor.assorted : Processor where
  name := "p"
  phase := .configured
  tracks := [
    { format := .video ⟨"h264", 640, 480⟩, acceptsPlugIns := true, chain := [.codec 0 "c"] },
    { format := .audio .telephone, acceptsPlugIns := true, chain := [.codec 0 "c", .codec 1 "d"] },
    { format := .audio .telephone, acceptsPlugIns := true }]

theorem install_first_audio_assorted : ∃ n : InstallNotice,
    let w : World Unit := { app := (), rig.processors := [.assorted] }
    install (.silent Unit) (perform (.silent Unit) 0) 0 5 .capture w =
      .ok (some 1, (w.decorate 0 5 (some 1)).record (.notice (.install .capture n))) := by
  obtain ⟨shown, v, shows, own, -, outcome⟩ :=
    @install_first_audio Unit (.silent Unit) (perform (.silent Unit) 0)
      { app := (), rig.processors := [.assorted] } 0 .assorted rfl nofun 5 .capture
  obtain ⟨rfl, -⟩ := own rfl
  have takes : TakesEffect Processor.assorted.tracks 1 := effectPlace_eq_some.mp rfl
  have all : shown = .ok Processor.assorted.tracks := by
    cases (trackControls_internal (x := .assorted) rfl rfl).symm.trans shows
    rfl
  obtain ⟨_, _, -, -, held, -⟩ | ⟨-, r, n, runs, place⟩ := outcome
  · cases held
  · obtain rfl := (place 1).mpr ⟨_, all, takes⟩
    exact ⟨n, runs⟩

end Metering
