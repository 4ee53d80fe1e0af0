import Metering.Proofs.Standby
/-!
What makes a processor fit to be realized. If codecs answer alike whenever they are asked, then it
can be told from the chains of the enabled tracks whether a configured processor realizes: each has
to agree on formats from the first plug-in to the last, and each codec in it has to open.
-/

namespace Metering

variable {S α : Type}

/-- How codecs answer, whenever they are asked. -/
structure Manner where
  offer : CodecId → Format → Option Format
  opens : CodecId → Except Fault Unit

/-- The codecs of an application answer in this manner, and nobody calls back. -/
structure Application.Conforms (app : Application S) (m : Manner) : Prop extends app.Silences where
  offer : ∀ c f, (app.offer c f).Answers (· = m.offer c f)
  opens : ∀ c, (app.opens c).Answers (· = m.opens c)

namespace Manner

/-- What a plug-in makes of a format, if it takes it. There are so many effects. -/
def answer (m : Manner) (effects : Nat) (f : Format) : PlugIn → Option Format
  | .effect e => if e < effects ∧ f.isAudio = true then some f else none
  | .codec c _ => m.offer c f

def Opens (m : Manner) : PlugIn → Prop
  | .effect _ => True
  | .codec c _ => m.opens c = .ok ()

/-- A chain agrees on formats, given the format that enters it. -/
def Agrees (m : Manner) (effects : Nat) (f : Format) (chain : List PlugIn) : Prop :=
  ∃ g, chain.foldlM (m.answer effects) f = some g

end Manner

/-- The chains of some tracks are of a kind, given the formats of the tracks. -/
def Processor.Chains (x : Processor) (is : List Nat) (kind : Format → List PlugIn → Prop) : Prop :=
  ∀ i ∈ is, ∀ t, x.tracks[i]? = some t → kind t.format t.chain

/-- The chains of all enabled tracks agree on formats, and all of them open. -/
structure Manner.Fits (m : Manner) (effects : Nat) (x : Processor) : Prop where
  agrees : x.Chains x.enabledTracks (m.Agrees effects)
  opens : x.Chains x.enabledTracks fun _ chain => ∀ y ∈ chain, m.Opens y

section Shut

variable {x y : Processor} {is : List Nat} {kind : Format → List PlugIn → Prop}

/-- It does not matter which chains are open. -/
theorem Processor.Chains.of_shut (same : y.shut = x.shut) (h : x.Chains is kind) :
    y.Chains is kind := by
  intro i member u track
  have here := x.shut_track i
  rw [← same, Processor.shut_track, track, Option.map_some] at here
  obtain ⟨t, there, eq⟩ := Option.map_eq_some_iff.mp here.symm
  have format : t.format = u.format := (congrArg (·.format) eq :)
  have chain : t.chain = u.chain := (congrArg (·.chain) eq :)
  exact format ▸ chain ▸ h i member t there

theorem Manner.Fits.of_shut {m : Manner} {n : Nat} (same : y.shut = x.shut) (fits : m.Fits n x) :
    m.Fits n y := by
  have enabled : y.enabledTracks = x.enabledTracks := by
    rw [← Processor.shut_enabledTracks, same, Processor.shut_enabledTracks]
  constructor
  · exact enabled ▸ fits.agrees.of_shut same
  · exact enabled ▸ fits.opens.of_shut same

end Shut

section Chain

variable {app : Application S} {m : Manner} (conforms : app.Conforms m)
variable {again : {β : Type} → Call β → Run S β} {w : World S}
include conforms

theorem offer_yields {x : PlugIn} {f g : Format}
    (takes : m.answer w.rig.effects.length f x = some g) :
    Yields (Chain.offer app again x f) w fun a w' => a = some g ∧ w.rig.Near w'.rig := by
  cases x with
  | effect e =>
    obtain ⟨⟨there, audio⟩, rfl⟩ : (e < w.rig.effects.length ∧ f.isAudio = true) ∧ f = g := by
      simpa [Manner.answer] using takes
    apply Yields.effect (List.getElem?_eq_getElem there)
    simp only [LevelEffect.offer, audio, if_true]
    exact yields_bind.mpr (yields_modifyEffect.mpr (yields_pure.mpr
      ⟨rfl, (Rig.Near.refl _).modifyEffect e _⟩))
  | codec c name =>
    apply Yields.record
    refine ((conforms.offer c f).settles _).mono ?_
    rintro a w' ⟨rfl, same⟩
    exact ⟨takes, same ▸ .refl _⟩

/-- What a plug-in answers, if it is there. -/
theorem offer_ensures (x : PlugIn) (f : Format) :
    Ensures (Chain.offer app again x f) w fun a w' =>
      a = m.answer w.rig.effects.length f x ∧ w.rig.Near w'.rig := by
  cases x with
  | effect e =>
    refine ensures_bind.mpr (ensures_effect.mpr ?_)
    intro z known
    have there := (List.getElem?_eq_some_iff.mp known).1
    have answers : (z.offer f).1 = m.answer w.rig.effects.length f (.effect e) := by
      by_cases audio : f.isAudio = true
      · simp [LevelEffect.offer, Manner.answer, there, audio]
      · simp [LevelEffect.offer, Manner.answer, audio]
    exact ensures_bind.mpr (ensures_modifyEffect.mpr (ensures_pure.mpr
      ⟨answers, (Rig.Near.refl _).modifyEffect e _⟩))
  | codec c name =>
    apply Ensures.record
    refine ((conforms.offer c f).settles _).ensures.mono ?_
    rintro a w' ⟨rfl, same⟩
    exact ⟨rfl, same ▸ .refl _⟩

theorem negotiate_yields {chain : List PlugIn} {f g : Format}
    (agrees : chain.foldlM (m.answer w.rig.effects.length) f = some g) :
    Yields (Chain.negotiate app again chain f) w fun a w' => a = .ok g ∧ w.rig.Near w'.rig := by
  induction chain generalizing f w with
  | nil =>
    obtain rfl := Option.some.inj agrees
    exact yields_pure.mpr ⟨rfl, .refl _⟩
  | cons x xs ih =>
    rw [List.foldlM_cons] at agrees
    obtain ⟨f', takes, rest⟩ := Option.bind_eq_some_iff.mp agrees
    refine (offer_yields conforms takes).bind ?_
    rintro _ v ⟨rfl, near⟩
    apply Yields.record
    refine (ih (w := v.record (.accepted x)) (near.effects ▸ rest)).mono ?_
    rintro _ w' ⟨rfl, later⟩
    exact ⟨rfl, near.trans later⟩

/-- A chain that has agreed on formats is one that does. -/
theorem negotiate_ensures (chain : List PlugIn) (f : Format) :
    Ensures (Chain.negotiate app again chain f) w fun a w' =>
      w.rig.Near w'.rig ∧ (a.isOk = true → m.Agrees w.rig.effects.length f chain) := by
  induction chain generalizing f w with
  | nil => exact ensures_pure.mpr ⟨.refl _, fun _ => ⟨f, rfl⟩⟩
  | cons x xs ih =>
    refine (offer_ensures conforms x f).bind ?_
    rintro a v ⟨answers, near⟩
    cases a with
    | none => exact ensures_pure.mpr ⟨near, nofun⟩
    | some g =>
      apply Ensures.record
      refine (ih (w := v.record (.accepted x)) g).mono ?_
      rintro a w' ⟨later, agrees⟩
      refine ⟨near.trans later, fun succeeds => ?_⟩
      obtain ⟨g', rest⟩ := agrees succeeds
      have effects : v.rig.effects.length = w.rig.effects.length := near.effects
      rw [World.record_rig, effects] at rest
      exact ⟨g', by rwa [List.foldlM_cons, ← answers]⟩

theorem openPlugIn_settles (x : PlugIn) : Yields (Chain.openPlugIn app again x) w fun a w' =>
    (a = .ok () ↔ m.Opens x) ∧ w'.rig = w.rig := by
  cases x with
  | effect e =>
    have means : (.ok () : Except Fault Unit) = .ok () ↔ m.Opens (.effect e) :=
      iff_of_true rfl trivial
    apply yields_bind.mpr
    apply yields_pure.mpr
    exact Yields.record (yields_pure.mpr ⟨means, rfl⟩)
  | codec c name =>
    apply Yields.record
    refine ((conforms.opens c).settles _).bind ?_
    rintro a v ⟨answers, same⟩
    have means : a = .ok () ↔ m.Opens (.codec c name) := by rw [answers, Manner.Opens]
    cases a with
    | ok => exact Yields.record (yields_pure.mpr ⟨means, same⟩)
    | error f => exact yields_pure.mpr ⟨means, same⟩

theorem openAll_yields {chain : List PlugIn} (opens : ∀ x ∈ chain, m.Opens x)
    (before : List PlugIn) : Yields (Chain.openAll app again before chain) w fun a w' =>
      a = .ok () ∧ w'.rig = w.rig := by
  induction chain generalizing before w with
  | nil => exact yields_pure.mpr ⟨rfl, rfl⟩
  | cons x xs ih =>
    refine (openPlugIn_settles conforms x).bind ?_
    rintro a v ⟨means, same⟩
    obtain rfl := means.mpr (opens x List.mem_cons_self)
    refine (ih (fun x member => opens x (List.mem_cons_of_mem _ member)) (before ++ [x])).mono ?_
    rintro _ w' ⟨rfl, same'⟩
    exact ⟨rfl, same'.trans same⟩

/-- A chain that was opened is one that opens. -/
theorem openAll_ensures (before chain : List PlugIn) :
    Ensures (Chain.openAll app again before chain) w fun a w' =>
      a.isOk = true → (∀ x ∈ chain, m.Opens x) ∧ w'.rig = w.rig := by
  induction chain generalizing before w with
  | nil => exact ensures_pure.mpr fun _ => ⟨nofun, rfl⟩
  | cons x xs ih =>
    refine (openPlugIn_settles conforms x).ensures.bind ?_
    rintro a v ⟨means, same⟩
    cases a with
    | ok =>
      refine (ih (before ++ [x])).mono ?_
      intro a w' rest succeeds
      obtain ⟨later, same'⟩ := rest succeeds
      refine ⟨?_, same'.trans same⟩
      rintro y (_ | ⟨_, member⟩)
      · exact means.mp rfl
      · exact later y member
    | error f =>
      apply Ensures.notice
      refine Ensures.bind (P := fun _ _ => True) (fun _ _ _ => trivial) ?_
      intro _ _ _
      exact ensures_pure.mpr nofun

end Chain

section Tracks

variable {app : Application S} {m : Manner} (conforms : app.Conforms m)
variable {again : {β : Type} → Call β → Run S β} {w : World S} {p : ProcessorId} {x : Processor}
include conforms

theorem negotiateTracks_yields (known : w.rig.processors[p]? = some x) (free : x.held = [])
    {is : List Nat} (agrees : x.Chains is (m.Agrees w.rig.effects.length)) :
    Yields (negotiateTracks app again p is) w fun a w' => a = .ok () ∧ w.rig.Near w'.rig := by
  induction is generalizing w x with
  | nil => exact yields_pure.mpr ⟨rfl, .refl _⟩
  | cons i is ih =>
    have rest : x.Chains is (m.Agrees w.rig.effects.length) :=
      fun j member => agrees j (List.mem_cons_of_mem _ member)
    apply Yields.track known
    cases track : x.tracks[i]? with
    | none => exact ih known free rest
    | some t =>
      obtain ⟨g, agreed⟩ := agrees i List.mem_cons_self t track
      refine (Yields.holding (R := fun u a v => a = .ok g ∧ u.rig.Near v.rig) known (by simp [free])
        (fun ⟨answer, near⟩ => ⟨answer, near.modify fun _ => rfl⟩)
        (negotiate_yields (w := w.modify p (·.hold i)) conforms agreed)).bind ?_
      rintro _ v ⟨rfl, near⟩
      obtain ⟨y, there, same⟩ := near.known known
      have free : y.held = [] := (congrArg (·.held) same).trans free
      refine (ih there free (near.effects ▸ rest.of_shut same)).mono ?_
      rintro _ w' ⟨rfl, later⟩
      exact ⟨rfl, near.trans later⟩

theorem negotiateTracks_ensures (known : w.rig.processors[p]? = some x) (is : List Nat) :
    Ensures (negotiateTracks app again p is) w fun a w' =>
      a.isOk = true → w.rig.Near w'.rig ∧ x.Chains is (m.Agrees w.rig.effects.length) := by
  -- By the tracks left, the world and the processor varying: each negotiation leaves both alike.
  induction is generalizing w x with
  | nil => exact ensures_pure.mpr fun _ => ⟨.refl _, nofun⟩
  | cons i is ih =>
    refine Ensures.track_of known ?_
    cases track : x.tracks[i]? with
    | none =>
      refine (ih known).mono ?_
      intro a w' rest succeeds
      obtain ⟨near, agrees⟩ := rest succeeds
      refine ⟨near, ?_⟩
      rintro j (_ | ⟨_, member⟩) t there
      · cases track.symm.trans there
      · exact agrees j member t there
    | some t =>
      refine (Ensures.holding (R := fun u a v => u.rig.Near v.rig ∧
        (a.isOk = true → m.Agrees u.rig.effects.length t.format t.chain))
        (fun ⟨near, agreed⟩ => ⟨near.modify fun _ => rfl, agreed⟩)
        (negotiate_ensures conforms t.chain t.format)).bind ?_
      rintro r v ⟨near, agreed⟩
      cases r with
      | error f => exact ensures_pure.mpr nofun
      | ok f =>
        obtain ⟨y, there, same⟩ := near.known known
        refine (ih there).mono ?_
        intro a w' rest succeeds
        obtain ⟨later, agrees⟩ := rest succeeds
        rw [near.effects] at agrees
        refine ⟨near.trans later, ?_⟩
        rintro j (_ | ⟨_, member⟩) u here
        · obtain rfl := Option.some.inj (track.symm.trans here)
          exact agreed rfl
        · exact agrees.of_shut same.symm j member u here

theorem openTrack_yields (known : w.rig.processors[p]? = some x) (free : x.held = []) {i : Nat}
    (opens : ∀ t, x.tracks[i]? = some t → ∀ y ∈ t.chain, m.Opens y) :
    Yields (openTrack app again p i) w fun a w' => a = .ok () ∧ w.rig.Near w'.rig := by
  apply Yields.track known
  cases track : x.tracks[i]? with
  | none => exact yields_pure.mpr ⟨rfl, .refl _⟩
  | some t =>
    refine (Yields.holding (R := fun u a v => a = .ok () ∧ v.rig = u.rig) known (by simp [free])
      (fun ⟨answer, same⟩ => ⟨answer, World.modify_rig_congr same⟩)
      (openAll_yields conforms (opens t track) [])).bind ?_
    rintro _ v ⟨rfl, same⟩
    have near : w.rig.Near v.rig := same ▸ .refl _
    exact yields_bind.mpr (yields_modifyProcessor.mpr (yields_pure.mpr ⟨rfl, near.setOpen i true⟩))

theorem openTrack_ensures (known : w.rig.processors[p]? = some x) (i : Nat) :
    Ensures (openTrack app again p i) w fun a w' => a.isOk = true → w.rig.Near w'.rig ∧
      ∀ t, x.tracks[i]? = some t → ∀ y ∈ t.chain, m.Opens y := by
  refine Ensures.track_of known ?_
  cases track : x.tracks[i]? with
  | none => exact ensures_pure.mpr fun _ => ⟨.refl _, nofun⟩
  | some t =>
    refine (Ensures.holding (R := fun u (a : Except Fault Unit) v => a.isOk = true →
      (∀ y ∈ t.chain, m.Opens y) ∧ v.rig = u.rig)
      (fun opened succeeds => (opened succeeds).imp_right World.modify_rig_congr)
      (openAll_ensures conforms [] t.chain)).bind ?_
    intro r v opened
    cases r with
    | error f => exact ensures_pure.mpr nofun
    | ok =>
      obtain ⟨opens, same⟩ := opened rfl
      have near : w.rig.Near v.rig := same ▸ .refl _
      refine ensures_bind.mpr (ensures_modifyProcessor.mpr (ensures_pure.mpr ?_))
      intro _
      refine ⟨near.setOpen i true, ?_⟩
      rintro _ ⟨⟩
      exact opens

theorem openTracks_yields (known : w.rig.processors[p]? = some x) (free : x.held = [])
    {is : List Nat} (opens : x.Chains is fun _ chain => ∀ y ∈ chain, m.Opens y)
    (before : List Nat) :
    Yields (openTracks app again p before is) w fun a w' => a = .ok () ∧ w.rig.Near w'.rig := by
  induction is generalizing w x before with
  | nil => exact yields_pure.mpr ⟨rfl, .refl _⟩
  | cons i is ih =>
    have rest : x.Chains is fun _ chain => ∀ y ∈ chain, m.Opens y :=
      fun j member => opens j (List.mem_cons_of_mem _ member)
    refine (openTrack_yields conforms known free (opens i List.mem_cons_self)).bind ?_
    rintro _ v ⟨rfl, near⟩
    obtain ⟨y, there, same⟩ := near.known known
    have free : y.held = [] := (congrArg (·.held) same).trans free
    refine (ih there free (rest.of_shut same) (before ++ [i])).mono ?_
    rintro _ w' ⟨rfl, later⟩
    exact ⟨rfl, near.trans later⟩

theorem openTracks_ensures (known : w.rig.processors[p]? = some x) (before is : List Nat) :
    Ensures (openTracks app again p before is) w fun a _ =>
      a.isOk = true → x.Chains is fun _ chain => ∀ y ∈ chain, m.Opens y := by
  induction is generalizing w x before with
  | nil => exact ensures_pure.mpr fun _ => nofun
  | cons i is ih =>
    refine (openTrack_ensures conforms known i).bind ?_
    intro r v opened
    cases r with
    | error f =>
      refine Ensures.bind (P := fun _ _ => True) (fun _ _ _ => trivial) ?_
      intro _ _ _
      exact ensures_pure.mpr nofun
    | ok =>
      obtain ⟨near, here⟩ := opened rfl
      obtain ⟨y, there, same⟩ := near.known known
      refine (ih there (before ++ [i])).mono ?_
      intro a w' rest succeeds
      rintro j (_ | ⟨_, member⟩)
      · exact here
      · exact (rest succeeds).of_shut same.symm j member

/-- A processor that fits prepares its tracks. -/
theorem prepare_yields (known : w.rig.processors[p]? = some x) (free : x.held = [])
    (fits : m.Fits w.rig.effects.length x) :
    Yields (prepare app again p) w fun a w' => a = .ok () ∧ w.rig.Near w'.rig := by
  apply Yields.processor known
  refine (negotiateTracks_yields conforms known free fits.agrees).bind ?_
  rintro _ v ⟨rfl, near⟩
  obtain ⟨y, there, same⟩ := near.known known
  have free : y.held = [] := (congrArg (·.held) same).trans free
  refine (openTracks_yields conforms there free (fits.opens.of_shut same) []).mono ?_
  rintro _ w' ⟨rfl, later⟩
  exact ⟨rfl, near.trans later⟩

/-- No other processor does. -/
theorem prepare_ensures (known : w.rig.processors[p]? = some x) :
    Ensures (prepare app again p) w fun a _ => a.isOk = true → m.Fits w.rig.effects.length x := by
  refine Ensures.processor_of known ?_
  refine (negotiateTracks_ensures conforms known x.enabledTracks).bind ?_
  intro r v agreed
  cases r with
  | error f => exact ensures_pure.mpr nofun
  | ok =>
    obtain ⟨near, agrees⟩ := agreed rfl
    obtain ⟨y, there, same⟩ := near.known known
    refine (openTracks_ensures conforms there [] x.enabledTracks).mono ?_
    intro a w' opens succeeds
    exact ⟨agrees, (opens succeeds).of_shut same.symm⟩

end Tracks

end Metering
