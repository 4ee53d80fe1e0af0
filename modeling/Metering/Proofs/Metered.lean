import Metering.Proofs.Capture
import Metering.Proofs.Levels
/-!
Capture from end to end: what becomes of the frames that are pushed into a processor after a
session has connected and started it, and which levels the local listener is told of them.
-/

namespace Metering

variable {S α β : Type}

namespace Program

def pushAll (p : ProcessorId) : List (Nat × Buffer) → Program S (List (Except Fault Buffer))
  | [] => done []
  | (i, b) :: rest => do
    let r ← send (.process p i b)
    let rs ← pushAll p rest
    return r :: rs

/-- What an application gets to see that captures. -/
structure Captured where
  connected : Except Fault Unit
  started : Except Fault Unit
  frames : List (Except Fault Buffer)

/-- Makes a processor for some formats, and a session whose local listener is set. -/
def setUp (name label : String) (device : Device) (config : SessionConfig)
    (formats : List Format) (l : ListenerId) : Program S (ProcessorId × SessionId) := do
  let p ← send (.newProcessor name (formats.map fun format => { format }))
  let s ← send (.newSession label device config)
  send (.setLocalListener s (some l))
  return (p, s)

/-- Captures: the processor is connected, the session is started, and frames are pushed. -/
def capture (name label : String) (device : Device) (config : SessionConfig)
    (formats : List Format) (l : ListenerId) (pushes : List (Nat × Buffer)) :
    Program S Captured := do
  let (p, s) ← setUp name label device config formats l
  let connected ← send (.connectCapture s p)
  let started ← send (.startSession s)
  let frames ← pushAll p pushes
  return { connected, started, frames }

/-- What is made of the frames on their way through the first audio track. -/
def ofFirstAudio (formats : List Format) (pushes : List (Nat × Buffer)) : List Buffer :=
  (pushes.filter fun x => formats.findIdx? Format.isAudio = some x.1).map (·.2)

def pushed (formats : List Format) (x : Nat × Buffer) : Except Fault Buffer :=
  if x.1 < formats.length then .ok x.2 else .error (.noSuchTrack x.1)

variable {again : {β : Type} → Call β → Run S β} {w : World S}

theorem run_bind (p : Program S α) (f : α → Program S β) :
    (p >>= f).run again = p.run again >>= fun a => (f a).run again := by
  change (p.bind f).run again = _
  induction p with
  | done a => simp [Program.bind, Program.run]
  | update g next ih => simp [Program.bind, Program.run, ih]
  | look g next ih => simp [Program.bind, Program.run, ih]
  | note text next ih => simp [Program.bind, Program.run, ih]
  | call c next ih => simp [Program.bind, Program.run, ih]

theorem ofFirstAudio_cons (formats : List Format) (x : Nat × Buffer) (rest : List (Nat × Buffer)) :
    ofFirstAudio formats (x :: rest) = if formats.findIdx? Format.isAudio = some x.1 then
      x.2 :: ofFirstAudio formats rest else ofFirstAudio formats rest := by
  unfold ofFirstAudio
  split <;> simp [*]

/-- A call, with the moments before and after it. -/
theorem yields_send {c : Call β} {f : β → Program S α} {Q : α → World S → Prop} :
    Yields ((send c >>= f).run again) w Q ↔
      Yields (again c)
        { w with moments := w.now :: w.moments, story := .did w.rig c.deed :: w.story } fun b w' =>
        Yields ((f b).run again) { w' with moments := w'.now :: w'.moments } Q := by
  change Yields (Run.mark >>= fun _ => Run.page (.did · c.deed) >>= fun _ => again c >>= fun b =>
    Run.mark >>= fun _ => (f b).run again) w Q ↔ _
  simp only [yields_bind, yields_mark, yields_page]

end Program

namespace Setup

variable {u : Setup} {g g' : Stage} {w : World S}

def seen (u : Setup) (g : Stage) (b : Buffer) : Stage :=
  { g with
    calculator := (g.calculator.sees b).2
    told := g.told ++ (g.calculator.sees b).1.toList.map (u.listener, ·) }

/-- The stage after a frame has been pushed: the effect sees it on the first audio track only. -/
def after (u : Setup) (g : Stage) (x : Nat × Buffer) : Stage :=
  if u.formats.findIdx? Format.isAudio = some x.1 then u.seen g x.2 else g

namespace Scene

variable {app : Application S} {again : {β : Type} → Call β → Run S β}

/-- A frame before the effect: it is measured, the listener may be told, and it goes on as it
is. -/
theorem observe (h : u.Scene g w) (quiet : ∀ n, (app.level u.listener n).Quiet) (b slot : Buffer) :
    Yields (Chain.observe app again u.effect b slot) w fun out w' =>
      out = b ∧ u.Scene (u.seen g b) w' := by
  obtain ⟨z, known, calculator, listener⟩ := h.effect
  apply Yields.effect known
  rw [LevelEffect.observe_eq listener, calculator]
  dsimp only
  refine yields_bind.mpr (yields_modifyEffect.mpr ?_)
  have remembers : u.Scene { g with calculator := (g.calculator.sees b).2 } { w with
      rig := { w.rig with effects := w.rig.effects.modify u.effect fun _ =>
        { z with calculator := (g.calculator.sees b).2 } } } :=
    { h with effect :=
        ⟨{ z with calculator := (g.calculator.sees b).2 }, by simp [known], rfl, listener⟩ }
  cases tells : (g.calculator.sees b).1 with
  | none =>
    refine yields_bind.mpr (yields_pure.mpr (yields_pure.mpr ⟨Buffer.copyFrom_eq slot b, ?_⟩))
    simpa [seen, tells] using remembers
  | some n =>
    apply Yields.record
    refine yields_bind.mpr (yields_page.mpr ?_)
    apply ((quiet n).yields _).bind
    rintro _ w' ⟨rig, told⟩
    refine yields_pure.mpr ⟨Buffer.copyFrom_eq slot b, Scene.same ?_ rig told⟩
    exact { remembers with levels := by simp [seen, tells, h.levels, Entry.level?] }

/-- A frame comes out as it went in, whatever stands in its way. -/
theorem send (h : u.Scene g w) (quiet : ∀ n, (app.level u.listener n).Quiet)
    (wired : g.wired = true) (i : Nat) (b : Buffer) :
    Yields (Chain.send app again (u.chain g.wired i) b) w fun r w' =>
      r = .ok b ∧ u.Scene (u.after g (i, b)) w' := by
  unfold after Setup.chain
  by_cases first : u.formats.findIdx? Format.isAudio = some i
  · rw [if_pos ⟨wired, first⟩, if_pos first]
    have passes : Yields (Chain.process app again (.effect u.effect) b) w fun r w' =>
        r = .ok b ∧ u.Scene (u.seen g b) w' := by
      apply (h.observe quiet b _).bind
      rintro _ w' ⟨rfl, scene⟩
      exact yields_pure.mpr ⟨rfl, scene⟩
    apply passes.bind
    rintro _ w' ⟨rfl, scene⟩
    dsimp only
    split <;> exact yields_pure.mpr ⟨rfl, scene⟩
  · rw [if_neg fun here => first here.2, if_neg first]
    exact yields_pure.mpr ⟨rfl, h⟩

/-- A call of the application takes it from one stage to the next. -/
theorem call (h : u.Scene g w) {c : Call β} {f : β → Program S α} {P : β → Prop}
    {Q : α → World S → Prop}
    (answers : ∀ w', u.Scene g w' → Yields (again c) w' fun b w'' => P b ∧ u.Scene g' w'')
    (rest : ∀ b w', P b → u.Scene g' w' → Yields ((f b).run again) w' Q) :
    Yields ((Program.send c >>= f).run again) w Q := by
  have marked : u.Scene g
      { w with moments := w.now :: w.moments, story := .did w.rig c.deed :: w.story } :=
    h.same rfl rfl
  refine Program.yields_send.mpr ((answers _ marked).mono ?_)
  rintro b w' ⟨holds, scene⟩
  exact rest b _ holds (scene.same rfl rfl)

theorem process (h : u.Scene g w) (quiet : ∀ n, (app.level u.listener n).Quiet)
    (started : g.phase = .started) (wired : g.wired = true) (x : Nat × Buffer) :
    Yields (process app again u.processor x.1 x.2) w fun r w' =>
      r = Program.pushed u.formats x ∧ u.Scene (u.after g x) w' := by
  obtain ⟨i, b⟩ := x
  obtain ⟨y, known, shape⟩ := h.processor
  apply Yields.processor known
  simp only [shape.phase, started, bne_self_eq_false, Bool.false_eq_true, if_false]
  cases at_i : y.tracks[i]? with
  | none =>
    have beyond : u.formats.length ≤ i := shape.length ▸ List.getElem?_eq_none_iff.mp at_i
    have elsewhere : u.formats.findIdx? Format.isAudio ≠ some i := by
      intro first
      exact absurd (List.findIdx?_eq_some_iff_getElem.mp first).1 (Nat.not_lt.mpr beyond)
    refine yields_pure.mpr ⟨?_, ?_⟩
    · rw [Program.pushed, if_neg (Nat.not_lt.mpr beyond)]
    · rwa [after, if_neg elsewhere]
  | some t =>
    have fits := shape.fits i t at_i
    have within : i < u.formats.length := (List.getElem?_eq_some_iff.mp fits.format).1
    simp only [fits.enabled, Bool.not_true, Bool.false_eq_true, if_false, fits.chain]
    apply (h.send quiet wired i b).bind
    rintro _ w' ⟨rfl, scene⟩
    refine yields_bind.mpr (yields_modifyProcessor.mpr (yields_pure.mpr ⟨?_, ?_⟩))
    · rw [Program.pushed, if_pos within]
    · exact scene.modify _ _ fun _ was => { was with }

end Scene

theorem after_progress (x : Nat × Buffer) : (u.after g x).toProgress = g.toProgress := by
  unfold after
  split <;> rfl

/-- What the listener is told of several frames. -/
theorem told_foldl (pushes : List (Nat × Buffer)) :
    (pushes.foldl u.after g).told = g.told ++ (g.calculator.config.heard g.calculator.last
      (Program.ofFirstAudio u.formats pushes)).map (u.listener, ·) := by
  induction pushes generalizing g with
  | nil => simp [Program.ofFirstAudio, EffectConfig.heard, EffectConfig.shown, EffectConfig.told]
  | cons x rest ih =>
    rw [List.foldl_cons, ih]
    rw [after, Program.ofFirstAudio_cons]
    split
    · rw [g.calculator.heard_cons]
      simp [seen]
    · rfl

variable {app : Application S} {depth : Nat}

theorem Scene.pushAll (h : u.Scene g w) (quiet : ∀ n, (app.level u.listener n).Quiet)
    (started : g.phase = .started) (wired : g.wired = true) (pushes : List (Nat × Buffer)) :
    Yields ((Program.pushAll u.processor pushes).run (perform app (depth + 1))) w fun rs w' =>
      rs = pushes.map (Program.pushed u.formats) ∧ u.Scene (pushes.foldl u.after g) w' := by
  induction pushes generalizing g w with
  | nil => exact yields_pure.mpr ⟨rfl, h⟩
  | cons x rest ih =>
    have processes : ∀ w', u.Scene g w' →
        Yields (Metering.process app (perform app depth) u.processor x.1 x.2) w' fun r w'' =>
          r = Program.pushed u.formats x ∧ u.Scene (u.after g x) w'' :=
      fun _ scene => scene.process quiet started wired x
    refine h.call processes fun r w' eq scene => ?_
    have progress := u.after_progress (g := g) x
    have others := ih scene (progress ▸ started) (progress ▸ wired)
    rw [Program.run_bind]
    apply others.bind
    rintro _ w'' ⟨rfl, scene⟩
    exact yields_pure.mpr ⟨by rw [eq, List.map_cons], scene⟩

end Setup

section Capture

variable {w : World S} {name label : String} {device : Device} {config : SessionConfig}
variable {formats : List Format} {l : ListenerId}

def World.setup (w : World S) (formats : List Format) (l : ListenerId) : Setup where
  formats := formats
  processor := w.rig.processors.length
  session := w.rig.sessions.length
  effect := w.rig.effects.length
  listener := l

/-- The stage at which everything has been made and nothing is connected. -/
def World.begun (w : World S) (config : SessionConfig) : Setup.Stage where
  calculator := { config := config.effect }
  told := levels w.journal

theorem Setup.fresh {w' : World S}
    (processors : w'.rig.processors =
      w.rig.processors ++ [.new name (formats.map fun format => { format })])
    (sessions : w'.rig.sessions =
      w.rig.sessions ++ [{ label, device, config, localEffect := w.rig.effects.length }])
    (effects : w'.rig.effects =
      w.rig.effects ++ [(LevelEffect.new config.effect).setListener (some l)])
    (told : levels w'.journal = levels w.journal) :
    (w.setup formats l).Scene (w.begun config) w' where
  processor := by
    refine ⟨_, processors ▸ List.getElem?_concat_length, ?_⟩
    refine {
      isExternal := rfl
      phase := rfl
      subscribers := rfl
      length := ?_
      free := rfl
      fits := ?_ }
    · simp [Processor.new, World.setup]
    · intro i t at_i
      simp only [Processor.new, List.getElem?_map, Option.map_eq_some_iff] at at_i
      obtain ⟨_, ⟨f, at_i, rfl⟩, rfl⟩ := at_i
      exact {
        format := at_i
        enabled := rfl
        accepts := rfl
        unlocked := fun _ => rfl
        chain := by simp [Setup.chain, Track.new, World.begun] }
  session := ⟨_, sessions ▸ List.getElem?_concat_length, rfl, rfl, rfl⟩
  effect := ⟨_, effects ▸ List.getElem?_concat_length, rfl, rfl⟩
  levels := told

variable (w name label device config formats l)

/-- Everything that takes part has just been made. -/
theorem Program.setUp_yields (app : Application S) (depth : Nat) :
    Yields ((Program.setUp name label device config formats l).run (perform app (depth + 1))) w
      fun made w' => made = (w.rig.processors.length, w.rig.sessions.length) ∧
        (w.setup formats l).Scene (w.begun config) w' := by
  refine Program.yields_send.mpr ?_
  change Yields (Run.newProcessor _) _ _
  simp only [Run.newProcessor, yields_bind, yields_get, yields_modifyRig, yields_pure]
  refine Program.yields_send.mpr ?_
  change Yields (newSession _ _ _) _ _
  simp only [newSession, Run.newEffect, Run.newSession, yields_bind, yields_get, yields_modifyRig,
    yields_pure]
  refine Program.yields_send.mpr ?_
  change Yields (setLocalListener _ _) _ _
  simp only [setLocalListener, setListener, yields_bind, yields_session, yields_modifyEffect]
  refine ⟨_, List.getElem?_concat_length, yields_pure.mpr ⟨rfl, ?_⟩⟩
  exact Setup.fresh rfl rfl (by simp [List.modify_eq_take_cons_drop]) rfl

/-- Capture from end to end. The processor is connected and started, every frame for one of its
tracks comes back as it is and all others are refused, and the local listener is told the levels
of the frames that went through the first audio track and count, provided that it keeps to
itself. -/
theorem capture_metered (app : Application S) (depth : Nat)
    (quiet : ∀ n, (app.level l n).Quiet) (pushes : List (Nat × Buffer)) :
    Yields ((Program.capture name label device config formats l pushes).run
        (perform app (depth + 3))) w fun captured w' =>
      captured.connected = .ok () ∧ captured.started = .ok () ∧
      captured.frames = pushes.map (Program.pushed formats) ∧
      levels w'.journal = levels w.journal ++
        (config.effect.heard none (Program.ofFirstAudio formats pushes)).map (l, ·) := by
  rw [Program.capture, Program.run_bind]
  have made := Program.setUp_yields w name label device config formats l app (depth + 2)
  apply made.bind
  rintro _ w' ⟨rfl, scene⟩
  refine scene.call (fun _ scene => scene.connectCapture rfl rfl Nat.one_pos)
    fun _ _ connected scene => ?_
  refine scene.call (fun _ scene => scene.startSession rfl rfl Nat.one_pos)
    fun _ _ started scene => ?_
  rw [Program.run_bind]
  apply (scene.pushAll quiet rfl rfl pushes).bind
  rintro _ w' ⟨frames, scene⟩
  exact yields_pure.mpr ⟨connected, started, frames, scene.levels.trans (Setup.told_foldl pushes)⟩

end Capture

def Buffer.silence (discard : Bool) : Buffer := { Buffer.tick with discard }

/-- Silence counts on the audio track, where it is not to be discarded. -/
theorem capture_metered_silence :
    Yields ((Program.capture "camera" "call" { id := "mic", name := "microphone" } {}
        [.video ⟨"vp8", 640, 480⟩, .audio .telephone] 7
        [(0, .silence false), (1, .silence false), (1, .silence true), (1, .silence false),
          (2, .silence false)]).run (perform (Application.silent Unit) 3)) { app := () }
      fun captured w => captured.frames = [.ok (.silence false), .ok (.silence false),
        .ok (.silence true), .ok (.silence false), .error (.noSuchTrack 2)] ∧
        levels w.journal = [(7, 0), (7, 0)] := by
  have heard : EffectConfig.heard {} none [.silence false, .silence true, .silence false] =
      [0, 0] := by decide +kernel
  refine (capture_metered _ _ _ _ _ _ _ (Application.silent Unit) 0 (fun _ => trivial) _).mono ?_
  rintro captured w ⟨-, -, frames, told⟩
  exact ⟨frames, told.trans (congrArg (List.map (7, ·)) heard)⟩

end Metering
