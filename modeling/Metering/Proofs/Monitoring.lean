import Metering.Monitor.Meter
import Metering.Proofs.History
import Metering.Proofs.Loading
import Metering.Proofs.Metered
import Metering.Proofs.Sounding
/-!
The level monitor from its command line to its last line. Once both processors are wired to the
session, every frame is measured on its own side, and what the listener of that side is told is
shown. Nothing stands in the way of a run, except that nobody starts the playback if the
configuration does not have it started.
-/

namespace Metering

def Side.label : Side → String
  | .capture => "local"
  | .stream => "remote"

/-- The position that everything on a side has: its processor, its effect and its listener. -/
def Side.place : Side → Nat
  | .capture => 0
  | .stream => 1

theorem Decimal.integer?_range {lo hi n : Int} {text : String}
    (read : Decimal.integer? lo hi text = some n) : lo ≤ n ∧ n ≤ hi := by
  simp only [Decimal.integer?, Option.ite_none_left_eq_some, Option.ite_none_right_eq_some,
    Option.some.injEq] at read
  obtain ⟨-, range, rfl⟩ := read
  exact range

namespace Tone

theorem nextFrame_length {t : Tone} (mono : t.format.channels = 1) (ms : Nat) :
    (t.nextFrame ms).1.data.length = 2 * t.instants ms := by
  rw [nextFrame, frame_eq, sound_length, mono]
  rfl

/-- A frame of a tone counts if it lasts for an instant at least. -/
theorem nextFrame_counts {t : Tone} {rate : Float} (format : t.format = .linear16 rate 1)
    (ms : Nat) : (t.nextFrame ms).1.counts = decide (0 < t.instants ms) := by
  have length := nextFrame_length (t := t) (by rw [format]; rfl) ms
  have shape : (t.nextFrame ms).1.format.audio? = some (.linear16 rate 1) := by
    rw [← format]
    rfl
  have usable : (t.nextFrame ms).1.discard = false := rfl
  have empty : (t.nextFrame ms).1.isEmpty = decide (t.instants ms = 0) := by
    rw [Buffer.isEmpty, Bool.eq_iff_iff, List.isEmpty_iff_length_eq_zero, length,
      decide_eq_true_eq]
    omega
  unfold Buffer.counts
  rw [shape, usable, empty, length]
  by_cases none : t.instants ms = 0
  · simp [none]
  · have whole : 2 ≤ 2 * t.instants ms := by omega
    have some : 0 < t.instants ms := by omega
    simp [none, some, whole, AudioFormat.linear16, AudioFormat.bytesPerSample]

/-- How long a frame lasts depends on the rate only. -/
theorem instants_congr {t u : Tone} (same : t.format = u.format) (ms : Nat) :
    t.instants ms = u.instants ms := by
  unfold instants
  rw [same]

end Tone

namespace Calculator

variable {k : Calculator} {b : Buffer}

/-- What a calculator remembers after a frame is what it told, unless that is nothing new. -/
theorem sees_last : (k.sees b).2.last = (k.sees b).1.or k.last := by
  unfold sees
  split
  · dsimp only
    split
    · next silent =>
      rw [Bool.and_eq_true, beq_iff_eq] at silent
      exact silent.2.symm
    · rfl
  · rfl

theorem sees_scale (falls : k.config.Falls) (last : ∀ n, k.last = some n → Level.OnScale n)
    {n : Int} (told : (k.sees b).1 = some n) : Level.OnScale n := by
  unfold sees at told
  split at told
  · dsimp only at told
    split at told
    · cases told
    · cases told
      exact falls.next last b.onScale_level
  · cases told

/-- If equal levels are told as well, just the frames that count are told. -/
theorem sees_isSome (every : k.config.changesOnly = false) : (k.sees b).1.isSome = b.counts := by
  unfold sees
  simp only [every, Bool.false_and, Bool.false_eq_true, if_false]
  split <;> simp_all

end Calculator

namespace Monitor

def levelLine (x : Side × Int) : String := meterLine x.1.label x.2

/-- What was read on a side, from the first to the last. -/
def readingsOf (readings : List (Side × Int)) (s : Side) : List Int :=
  (readings.filter (·.1 = s)).map (·.2)

@[simp]
theorem readingsOf_append (readings : List (Side × Int)) (s t : Side) (levels : List Int) :
    readingsOf (readings ++ levels.map (s, ·)) t =
      readingsOf readings t ++ if s = t then levels else [] := by
  unfold readingsOf
  rw [List.filter_append, List.map_append]
  by_cases same : s = t
  · simp [same, List.filter_map, Function.comp_def]
  · simp [same, List.filter_map, Function.comp_def]

/-- How far a run has come. -/
structure Progress where
  calculator : Side → Calculator
  frames : Side → Nat := fun _ => 0
  /-- What the listeners were told. -/
  readings : List (Side × Int) := []

namespace Progress

def start (c : EffectConfig) : Progress where
  calculator _ := { config := c }

def sees (g : Progress) (s : Side) (b : Buffer) : Progress where
  calculator t := if t = s then ((g.calculator s).sees b).2 else g.calculator t
  frames t := if t = s then g.frames s + 1 else g.frames t
  readings := g.readings ++ ((g.calculator s).sees b).1.toList.map (s, ·)

/-- The frames of a run count if they are audible, and then what was read is what was measured, as
far as it was new. -/
structure Right (c : EffectConfig) (audible : Bool) (g : Progress) : Prop where
  config : ∀ s, (g.calculator s).config = c
  last : ∀ s, (g.calculator s).last = (readingsOf g.readings s).getLast?
  scale : ∀ s, ∀ n ∈ readingsOf g.readings s, Level.OnScale n
  all : c.changesOnly = false →
    ∀ s, (readingsOf g.readings s).length = if audible then g.frames s else 0

variable {c : EffectConfig} {audible : Bool} {g : Progress}

theorem Right.start (c : EffectConfig) (audible : Bool) : Right c audible (.start c) where
  config _ := rfl
  last _ := rfl
  scale _ := nofun
  all _ _ := by cases audible <;> rfl

/-- A frame on a side leaves everything as it should be. -/
theorem Right.sees (h : g.Right c audible) (falls : c.Falls) (s : Side) {b : Buffer}
    (counts : b.counts = audible) : (g.sees s b).Right c audible where
  config t := by
    unfold Progress.sees
    by_cases here : t = s
    · simp [here, h.config]
    · simp [here, h.config]
  last t := by
    unfold Progress.sees
    by_cases here : t = s
    · subst here
      simp only [if_true, readingsOf_append, List.getLast?_append, Calculator.sees_last, h.last]
      cases ((g.calculator t).sees b).1 with
      | none => rfl
      | some n => rfl
    · simp [here, Ne.symm here, h.last]
  scale t n member := by
    simp only [Progress.sees, readingsOf_append] at member
    obtain before | now := List.mem_append.mp member
    · exact h.scale t n before
    · split at now
      · next here =>
        subst here
        refine Calculator.sees_scale ((h.config s).symm ▸ falls) (fun m last => ?_)
          (Option.mem_toList.mp now)
        exact h.scale s m (List.mem_of_getLast? ((h.last s).symm.trans last))
      · cases now
  -- If every frame is told, there is one reading more exactly if the frame counts.
  all every t := by
    have before := h.all every t
    simp only [Progress.sees, readingsOf_append, List.length_append, before]
    by_cases here : t = s
    · subst here
      have told := Calculator.sees_isSome (k := g.calculator t) (b := b)
        ((h.config t).symm ▸ every)
      rw [counts] at told
      cases level : ((g.calculator t).sees b).1 with
      | none => simp_all
      | some n => simp_all
    · simp [here, Ne.symm here]

end Progress

section Frames

variable {again : {β : Type} → Call β → Run Screen β} {w : World Screen}

/-- A frame has gone through the effect of a side, and what the listener was told is shown. -/
structure Watched (e : EffectId) (z : LevelEffect) (s : Side) (b : Buffer) (w w' : World Screen) :
    Prop where
  screen : w'.app = (z.calculator.sees b).1.toList.map (fun n => levelLine (s, n)) ++ w.app
  rig : w'.rig = { w.rig with
    effects := w.rig.effects.modify e fun _ => { z with calculator := (z.calculator.sees b).2 } }

variable {e : EffectId} {z : LevelEffect} {s : Side}

theorem observe_watched (known : w.rig.effects[e]? = some z) (listens : z.listener = some s.place)
    (b slot : Buffer) : Yields (Chain.observe application again e b slot) w fun out w' =>
      out = b ∧ Watched e z s b w w' := by
  have label : (if s.place = localListener then "local" else "remote") = s.label := by
    cases s <;> rfl
  apply Yields.effect known
  rw [LevelEffect.observe_eq listens]
  dsimp only
  refine yields_bind.mpr (yields_modifyEffect.mpr ?_)
  cases told : (z.calculator.sees b).1 with
  | none => exact ⟨b, _, rfl, rfl, ⟨by rw [told]; rfl, rfl⟩⟩
  | some n =>
    refine ⟨b, _, rfl, rfl, ⟨?_, rfl⟩⟩
    rw [told]
    exact congrArg (fun l => meterLine l n :: w.app) label

theorem send_watched (known : w.rig.effects[e]? = some z) (listens : z.listener = some s.place)
    (b : Buffer) : Yields (Chain.send application again [.effect e] b) w fun r w' =>
      r = .ok b ∧ Watched e z s b w w' := by
  have passes : Yields (Chain.process application again (.effect e) b) w fun r w' =>
      r = .ok b ∧ Watched e z s b w w' := by
    apply (observe_watched known listens b _).bind
    rintro _ w' ⟨rfl, watched⟩
    exact yields_pure.mpr ⟨rfl, watched⟩
  apply passes.bind
  rintro _ w' ⟨rfl, watched⟩
  dsimp only
  split
  · exact yields_pure.mpr ⟨rfl, watched⟩
  · exact yields_pure.mpr ⟨rfl, watched⟩

/-- A processor at work sends a frame through the effect of its side. -/
theorem process_watched {p : ProcessorId} {x : Processor} {t : Track}
    (here : w.rig.processors[p]? = some x) (started : x.phase = .started)
    (track : x.tracks[0]? = some t) (enabled : t.enabled = true) (chain : t.chain = [.effect e])
    (known : w.rig.effects[e]? = some z) (listens : z.listener = some s.place) (b : Buffer) :
    Yields (process application again p 0 b) w fun r w' =>
      r = .ok b ∧ ∃ v, Watched e z s b w v ∧
        w' = v.modify p fun x => { x with framesProcessed := x.framesProcessed + 1 } := by
  apply Yields.processor here
  simp only [started, bne_self_eq_false, Bool.false_eq_true, if_false, track, enabled,
    Bool.not_true, chain]
  apply (send_watched known listens b).bind
  rintro _ v ⟨rfl, watched⟩
  exact yields_bind.mpr (yields_modifyProcessor.mpr (yields_pure.mpr ⟨rfl, v, watched, rfl⟩))

end Frames

section Rigs

variable (f : AudioFormat) (config : SessionConfig)

def processorName : Side → String
  | .capture => "capture"
  | .stream => "playback"

/-- How the session hears of the processor of a side. -/
def subscriber : Side → Subscriber
  | .capture => .capture 0
  | .stream => .stream 0 1

/-- The processor of a side, wired to the effect of the side. -/
def wired (s : Side) (phase : Phase) (frames : Nat) : Processor :=
  { Processor.new (processorName s) [{ format := .audio f }] with
    phase
    subscribers := [subscriber s]
    framesProcessed := .ofNat frames
    tracks := [{ Track.new { format := .audio f } with
      chain := [.effect s.place], locked := true, isOpen := true }] }

theorem wired_counted (s : Side) (phase : Phase) (frames : Nat) :
    { wired f s phase frames with framesProcessed := .ofNat frames + 1 } =
      wired f s phase (frames + 1) :=
  congrArg (fun count => { wired f s phase 0 with framesProcessed := count })
    (UInt64.ofNat_add frames 1).symm

def effectOf (s : Side) (k : Calculator) : LevelEffect := ⟨k, some s.place, some (.audio f)⟩

def session : Session where
  label := "monitor"
  device := device
  config := config
  localEffect := Side.capture.place
  streamListener := some remoteListener

def made : Rig where
  processors := [.new "capture" [{ format := .audio f }], .new "playback" [{ format := .audio f }]]
  effects := [⟨{ config := config.effect }, some localListener, none⟩]
  sessions := [session config]

def captured : Rig where
  processors := [wired f .capture .realized 0, .new "playback" [{ format := .audio f }]]
  effects := [effectOf f .capture { config := config.effect }]
  sessions := [{ session config with capture := some 0 }]

/-- The phase in which the session leaves the playback. -/
def playback : Phase := if config.startStreams then .started else .realized

/-- The rig when both processors were connected, the capture being in this phase. -/
def connected (phase : Phase) (g : Progress) : Rig where
  processors := [wired f .capture phase (g.frames .capture),
    wired f .stream (playback config) (g.frames .stream)]
  effects := [effectOf f .capture (g.calculator .capture),
    effectOf f .stream (g.calculator .stream)]
  sessions := [{ session config with capture := some 0, streams := [(1, ⟨1, 1⟩)] }]

structure Shows (g : Progress) (w : World Screen) : Prop where
  rig : w.rig = connected f config .started g
  screen : w.app = (g.readings.map levelLine).reverse

end Rigs

section Calls

variable {f : AudioFormat} {config : SessionConfig} {w : World Screen} {g : Progress}

theorem connects_capture (depth : Nat) (rig : w.rig = made f config) :
    Yields (perform application (depth + 4) (.connectCapture 0 0)) w fun r w' =>
      r = .ok () ∧ w'.app = w.app ∧ w'.rig = captured f config := by
  obtain ⟨app, _, journal, moments, story⟩ := w
  subst rig
  exact ⟨_, _, rfl, rfl, rfl, rfl⟩

theorem connects_playback (depth : Nat) (rig : w.rig = captured f config) :
    Yields (perform application (depth + 4) (.addStream 0 1 1)) w fun r w' =>
      r = .ok () ∧ w'.app = w.app ∧
        w'.rig = connected f config .realized (.start config.effect) := by
  obtain ⟨app, _, journal, moments, story⟩ := w
  subst rig
  obtain ⟨effect, startStreams⟩ := config
  cases startStreams with
  | true => exact ⟨_, _, rfl, rfl, rfl, rfl⟩
  | false => exact ⟨_, _, rfl, rfl, rfl, rfl⟩

theorem starts_session (depth : Nat) (rig : w.rig = connected f config .realized g) :
    Yields (perform application (depth + 4) (.startSession 0)) w fun r w' =>
      r = .ok () ∧ w'.app = w.app ∧ w'.rig = connected f config .started g := by
  obtain ⟨app, _, journal, moments, story⟩ := w
  subst rig
  exact ⟨_, _, rfl, rfl, rfl, rfl⟩

theorem closes_session (depth : Nat) (rig : w.rig = connected f config .started g) :
    Yields (perform application (depth + 4) (.closeSession 0)) w fun _ w' => w'.app = w.app := by
  obtain ⟨app, _, journal, moments, story⟩ := w
  subst rig
  obtain ⟨effect, startStreams⟩ := config
  cases startStreams with
  | true => exact ⟨_, _, rfl, rfl⟩
  | false => exact ⟨_, _, rfl, rfl⟩

def phaseOf (config : SessionConfig) : Side → Phase
  | .capture => .started
  | .stream => playback config

theorem Shows.processor (h : Shows f config g w) (s : Side) :
    w.rig.processors[s.place]? = some (wired f s (phaseOf config s) (g.frames s)) := by
  rw [h.rig]
  cases s <;> rfl

theorem Shows.effect (h : Shows f config g w) (s : Side) :
    w.rig.effects[s.place]? = some (effectOf f s (g.calculator s)) := by
  rw [h.rig]
  cases s <;> rfl

theorem Shows.marked (h : Shows f config g w) (moments : List Moment) (story : List Page) :
    Shows f config g { w with moments, story } := ⟨h.rig, h.screen⟩

/-- A frame on a side whose processor has started. -/
theorem Shows.process (h : Shows f config g w) {s : Side} (started : phaseOf config s = .started)
    (depth : Nat) (b : Buffer) :
    Yields (perform application (depth + 1) (.process s.place 0 b)) w fun r w' =>
      r = .ok b ∧ Shows f config (g.sees s b) w' := by
  have heard : (effectOf f s (g.calculator s)).listener = some s.place := rfl
  have goes : Yields (Metering.process application (perform application depth) s.place 0 b) w _ :=
    process_watched (h.processor s) started rfl rfl rfl (h.effect s) heard b
  refine goes.mono ?_
  rintro _ _ ⟨rfl, v, watched, rfl⟩
  refine ⟨rfl, ?_, ?_⟩
  · simp only [World.modify, watched.rig, h.rig]
    cases s with
    | capture => exact congrArg (fun x => Rig.mk [x, _] _ _) (wired_counted ..)
    | stream => exact congrArg (fun x => Rig.mk [_, x] _ _) (wired_counted ..)
  · change v.app = _
    rw [watched.screen, h.screen]
    change ((g.calculator s).sees b).1.toList.map _ ++ _ = _
    unfold Progress.sees
    cases ((g.calculator s).sees b).1 with
    | none => simp
    | some n => simp

/-- Nobody has started the playback. -/
theorem Shows.refuses (h : Shows f config g w) (idle : config.startStreams = false) (depth : Nat)
    (b : Buffer) : Yields (perform application (depth + 1) (.process Side.stream.place 0 b)) w
      fun r w' => r = .error (.invalidState "playback cannot process while Realized") ∧
        Shows f config g w' := by
  have phase : phaseOf config .stream = .realized := by simp [phaseOf, playback, idle]
  have here := h.processor .stream
  rw [phase] at here
  apply Yields.processor here
  exact yields_pure.mpr ⟨rfl, h⟩

/-- A frame on each side. -/
theorem Shows.pushFrame (h : Shows f config g w) (starts : config.startStreams = true)
    (depth : Nat) (b d : Buffer) :
    Yields ((pushFrame 0 1 b d).run (perform application (depth + 1))) w fun r w' =>
      r = .ok () ∧ Shows f config ((g.sees .capture b).sees .stream d) w' := by
  refine Program.yields_send.mpr (((h.marked _ _).process (s := .capture) rfl depth b).mono ?_)
  rintro _ v ⟨rfl, shows⟩
  have phase : phaseOf config .stream = .started := if_pos starts
  refine Program.yields_send.mpr (((shows.marked _ _).process phase depth d).mono ?_)
  rintro _ v ⟨rfl, shows⟩
  exact yields_pure.mpr ⟨rfl, shows.marked _ _⟩

/-- The playback does not take its first frame if nobody has started it. -/
theorem Shows.pushFrame_idle (h : Shows f config g w) (idle : config.startStreams = false)
    (depth : Nat) (b d : Buffer) :
    Yields ((Monitor.pushFrame 0 1 b d).run (perform application (depth + 1))) w fun r _ =>
      r = .error (.invalidState "playback cannot process while Realized") := by
  refine Program.yields_send.mpr (((h.marked _ _).process (s := .capture) rfl depth b).mono ?_)
  rintro _ v ⟨rfl, shows⟩
  refine Program.yields_send.mpr (((shows.marked _ _).refuses idle depth d).mono ?_)
  rintro _ v ⟨rfl, shows⟩
  exact yields_pure.mpr rfl

end Calls

section Options

variable {a b : Arguments}

/-- So many frames can be asked for that a processor can count them. -/
theorem Arguments.set?_few {option value : String} (few : a.frames < 2 ^ 64)
    (set : a.set? option value = some b) : b.frames < 2 ^ 64 := by
  unfold Arguments.set? at set
  split_ifs at set
  case pos =>
    obtain ⟨x, -, rfl⟩ := Option.map_eq_some_iff.mp set
    exact few
  case pos =>
    obtain ⟨x, -, rfl⟩ := Option.map_eq_some_iff.mp set
    exact few
  case pos =>
    obtain ⟨x, -, rfl⟩ := Option.map_eq_some_iff.mp set
    exact few
  case pos =>
    obtain ⟨n, word, rfl⟩ := Option.map_eq_some_iff.mp set
    obtain ⟨m, range, rfl⟩ := Option.map_eq_some_iff.mp word
    have := (Decimal.integer?_range range).2
    change m.toNat < 2 ^ 64
    omega
  case pos =>
    obtain ⟨n, -, rfl⟩ := Option.map_eq_some_iff.mp set
    exact few
  case neg =>
    obtain rfl := Option.some.inj set
    exact few

theorem Arguments.readAll_few {seen args : List String} (few : a.frames < 2 ^ 64)
    (read : readAll a seen args = .ok b) : b.frames < 2 ^ 64 := by
  fun_induction readAll a seen args with
  | case1 | case3 =>
    obtain rfl := Except.ok.inj read
    exact few
  | case6 _ _ _ _ _ _ _ _ _ _ _ set ih => exact ih (Arguments.set?_few few set) read
  | case10 _ _ _ _ _ _ _ _ _ _ _ set ih => exact ih (Arguments.set?_few few set) read
  | _ => cases read

theorem Arguments.read_few {args : List String} (read : Arguments.read args = .ok a) :
    a.frames < 2 ^ 64 :=
  Arguments.readAll_few (by decide) read

end Options

section Runs

variable {a : Arguments} {config : SessionConfig} {w : World Screen} {g : Progress}
variable {captured received : Tone}

def Arguments.format (a : Arguments) : AudioFormat := .linear16 a.sampleRate 1

def Arguments.audible (a : Arguments) : Bool :=
  0 < (Tone.new a.sampleRate 1 a.frequency a.amplitude).instants a.frameMs

theorem nextFrame_audible {t : Tone} (format : t.format = a.format) :
    (t.nextFrame a.frameMs).1.counts = a.audible := by
  rw [Tone.nextFrame_counts format, Arguments.audible]
  congr 2
  exact Tone.instants_congr format a.frameMs

/-- The run goes on: what is shown is right, and so many frames were sent on each side. -/
structure Stands (a : Arguments) (config : SessionConfig) (sent : Nat) (g : Progress)
    (w : World Screen) : Prop where
  shows : Shows a.format config g w
  right : g.Right config.effect a.audible
  frames : ∀ s, g.frames s = sent

/-- Both tones to their end. -/
theorem pushFrames_yields (depth : Nat) (falls : config.effect.Falls) {sent : Nat}
    (h : Stands a config sent g w) (left : Nat) (starts : config.startStreams = true ∨ left = 0)
    (capturedFormat : captured.format = a.format) (receivedFormat : received.format = a.format) :
    Yields ((pushFrames a 0 1 captured received left).run (perform application (depth + 1))) w
      fun r w' => r = .ok () ∧ ∃ g', Stands a config (sent + left) g' w' := by
  induction left generalizing captured received g w sent with
  | zero => exact yields_pure.mpr ⟨rfl, g, h⟩
  | succ left ih =>
    have starts : config.startStreams = true := starts.resolve_right (Nat.succ_ne_zero left)
    rw [pushFrames, Program.run_bind]
    refine (h.shows.pushFrame starts depth _ _).bind ?_
    rintro _ v ⟨rfl, shows⟩
    have fades : (captured.setAmplitude (a.amplitude * fade a (a.frames - (left + 1)))).format =
        a.format := capturedFormat
    have right := (h.right.sees falls .capture (nextFrame_audible fades)).sees falls .stream
      (nextFrame_audible receivedFormat)
    have stands : Stands a config (sent + 1) _ v := ⟨shows, right, fun s => ?_⟩
    · have later : sent + (left + 1) = sent + 1 + left := by omega
      rw [later]
      exact ih stands (.inl starts) fades receivedFormat
    · cases s <;> simp [Progress.sees, h.frames]

theorem pushFrames_idle (depth : Nat) {sent : Nat} (h : Stands a config sent g w)
    (idle : config.startStreams = false) (captured received : Tone) (left : Nat) :
    Yields ((pushFrames a 0 1 captured received (left + 1)).run (perform application (depth + 1))) w
      fun r _ => r = .error (.invalidState "playback cannot process while Realized") := by
  rw [pushFrames, Program.run_bind]
  refine (h.shows.pushFrame_idle idle depth _ _).bind ?_
  rintro _ v rfl
  exact yields_pure.mpr rfl

def lastReadings (readings : List (Side × Int)) : Levels where
  capture := (readingsOf readings .capture).getLast?
  stream := (readingsOf readings .stream).getLast?

/-- The last line says what was read last, and how many frames were sent. -/
theorem showFinal_yields (again : {β : Type} → Call β → Run Screen β) {sent : Nat}
    (h : Stands a config sent g w) (few : sent < 2 ^ 64) :
    Yields ((showFinal 0 0 1).run again) w fun _ w' => w'.rig = w.rig ∧
      w'.app = finalLine (lastReadings g.readings) sent sent :: w.app := by
  obtain ⟨⟨rig, screen⟩, right, frames⟩ := h
  obtain ⟨app, _, journal, moments, story⟩ := w
  subst rig
  have capture : (connected a.format config .started g).lastLevel 0 =
      (readingsOf g.readings .capture).getLast? := right.last .capture
  have stream : (connected a.format config .started g).lastLevel 1 =
      (readingsOf g.readings .stream).getLast? := right.last .stream
  have levels : (connected a.format config .started g).levels
      { session config with capture := some 0, streams := [(1, ⟨1, 1⟩)] } =
        lastReadings g.readings := by
    unfold Rig.levels lastReadings
    simp only [session, Side.place, capture, List.filterMap_cons, List.filterMap_nil, stream]
    cases (readingsOf g.readings .stream).getLast? with
    | none => rfl
    | some n => rfl
  refine ⟨(), _, rfl, rfl, ?_⟩
  change finalLine (Rig.levels _ _) (UInt64.ofNat (g.frames .capture)).toNat
    (UInt64.ofNat (g.frames .stream)).toNat :: app = _
  rw [levels, frames, frames, UInt64.toNat_ofNat_of_lt' few]

/-- What a run comes to that sends all its frames. -/
structure Complete (a : Arguments) (c : EffectConfig) (readings : List (Side × Int))
    (lines : List String) : Prop where
  /-- A line for each reading, and a last one for what was read last and for the frames sent. -/
  lines : lines =
    readings.map levelLine ++ [finalLine (lastReadings readings) a.frames a.frames]
  scale : ∀ x ∈ readings, Level.OnScale x.2 ∧ barWidth x.2 ≤ fullBar
  all : c.changesOnly = false →
    ∀ s, (readingsOf readings s).length = if a.audible then a.frames else 0

theorem barWidth_le {n : Int} (scale : Level.OnScale n) : barWidth n ≤ fullBar := by
  have high : n.toNat ≤ 127 := by
    have := scale.2
    unfold Level.highest at this
    omega
  have top : Level.highest.toNat = 127 := rfl
  unfold barWidth fullBar
  rw [top]
  omega

theorem Stands.complete (h : Stands a config a.frames g w) : Complete a config.effect g.readings
    (g.readings.map levelLine ++ [finalLine (lastReadings g.readings) a.frames a.frames]) where
  lines := rfl
  scale x member := by
    have scale := h.right.scale x.1 x.2
      (List.mem_map_of_mem (List.mem_filter.mpr ⟨member, by simp⟩))
    exact ⟨scale, barWidth_le scale⟩
  all every s := by rw [h.right.all every s, h.frames]

/-- Makes a session with both listeners, and a processor for each side. -/
def makeAll (a : Arguments) (config : SessionConfig) :
    Program Screen (SessionId × ProcessorId × ProcessorId) := do
  let s ← Program.send (.newSession "monitor" device config)
  Program.send (.setLocalListener s (some localListener))
  Program.send (.setStreamListener s (some remoteListener))
  let capture ← Program.send (.newProcessor "capture" [{ format := .audio a.format }])
  let playback ← Program.send (.newProcessor "playback" [{ format := .audio a.format }])
  return (s, capture, playback)

theorem makeAll_yields (depth : Nat) :
    Yields ((makeAll a config).run (perform application (depth + 1))) { app := [] } fun x w =>
      x = (0, 0, 1) ∧ w.app = [] ∧ w.rig = made a.format config :=
  ⟨_, _, rfl, rfl, rfl, rfl⟩

theorem monitor_eq (a : Arguments) (config : SessionConfig) :
    monitor a config = makeAll a config >>= fun x => connect x.1 x.2.1 x.2.2 >>= fun r =>
      match r with
      | .error f => return .error f
      | .ok () => do
        match ← pushFrames a x.2.1 x.2.2 (.new a.sampleRate 1 a.frequency a.amplitude)
          (.new a.sampleRate 1 (a.frequency * 1.5) 0.25) a.frames with
        | .error f => return .error f
        | .ok () =>
          showFinal x.1 x.2.1 x.2.2
          Program.send (.closeSession x.1)
          return .ok () := rfl

/-- Both processors are connected, and the capture has started. -/
theorem connect_yields (depth : Nat) (rig : w.rig = made a.format config) (blank : w.app = []) :
    Yields ((connect 0 0 1).run (perform application (depth + 4))) w fun r w' =>
      r = .ok () ∧
        Stands a config 0 (.start config.effect) w' := by
  refine Program.yields_send.mpr ((connects_capture depth (by exact rig)).mono ?_)
  rintro _ u ⟨rfl, clean, rig⟩
  refine Program.yields_send.mpr ((connects_playback depth (by exact rig)).mono ?_)
  rintro _ v ⟨rfl, still, rig⟩
  refine Program.yields_send.mpr ((starts_session depth (by exact rig)).mono ?_)
  rintro _ v' ⟨rfl, same, rig⟩
  have screen : v'.app = [] := same.trans (still.trans (clean.trans blank))
  exact yields_pure.mpr ⟨rfl, ⟨rig, screen⟩, .start _ _, fun _ => rfl⟩

/-- The monitor with a configuration: it sends all its frames, or the playback does not take the
first one. -/
theorem monitor_yields (few : a.frames < 2 ^ 64) (depth : Nat) (falls : config.effect.Falls) :
    Yields ((monitor a config).run (perform application (depth + 4))) { app := [] } fun r w =>
      if config.startStreams = true ∨ a.frames = 0 then
        r = .ok () ∧ ∃ readings, Complete a config.effect readings w.app.reverse
      else r = .error (.invalidState "playback cannot process while Realized") := by
  rw [monitor_eq, Program.run_bind]
  -- Everything is made, then connected, then the frames are sent, then the session is closed.
  refine (makeAll_yields (depth + 3)).bind ?_
  rintro _ u ⟨rfl, blank, rig⟩
  rw [Program.run_bind]
  refine (connect_yields depth rig blank).bind ?_
  rintro _ v ⟨rfl, stands⟩
  dsimp only
  rw [Program.run_bind]
  split
  · next starts =>
    refine (pushFrames_yields (depth + 3) falls stands a.frames starts rfl rfl).bind ?_
    rintro _ v' ⟨rfl, g, stands⟩
    rw [Nat.zero_add] at stands
    dsimp only
    rw [Program.run_bind]
    refine (showFinal_yields _ stands few).bind ?_
    rintro _ u' ⟨rig, shown⟩
    have wired := rig.trans stands.shows.rig
    refine Program.yields_send.mpr ((closes_session depth (by exact wired)).mono ?_)
    intro _ v' same
    refine yields_pure.mpr ⟨rfl, g.readings, ?_⟩
    have screen : v'.app.reverse = g.readings.map levelLine ++
        [finalLine (lastReadings g.readings) a.frames a.frames] := by
      rw [same]
      change u'.app.reverse = _
      rw [shown, stands.shows.screen, List.reverse_cons, List.reverse_reverse]
    change Complete a config.effect g.readings v'.app.reverse
    rw [screen]
    exact stands.complete
  · next idle =>
    rw [not_or, Bool.not_eq_true] at idle
    obtain ⟨left, eq⟩ := Nat.exists_eq_succ_of_ne_zero idle.2
    rw [eq]
    refine (pushFrames_idle (depth + 3) stands idle.1 _ _ left).bind ?_
    rintro _ u' rfl
    exact yields_pure.mpr rfl

/-- What the command gets to run with: the configuration of the file that is named, or the
default. -/
def Configured (a : Arguments) (file : String → Except String String)
    (explain : String → String) (config : SessionConfig) : Prop :=
  match a.config with
  | none => config = {}
  | some path => ∃ text, file path = .ok text ∧ SessionConfig.load text explain = .ok config

theorem Configured.falls {file : String → Except String String} {explain : String → String}
    (h : Configured a file explain config) : config.effect.Falls := by
  unfold Configured at h
  split at h
  · subst h
    exact .inr (by decide)
  · obtain ⟨text, -, loaded⟩ := h
    have steps := config.problem?_eq_none.mp (config.load_ok loaded)
    exact .inr (by omega)

theorem command_eq {args : List String} {file : String → Except String String}
    {explain : String → String} (read : Arguments.read args = .ok a)
    (h : Configured a file explain config) : command args file explain = run a config := by
  cases named : a.config with
  | none =>
    obtain rfl : config = {} := by simpa only [Configured, named] using h
    simp only [command, read, named]
  | some path =>
    obtain ⟨text, there, loaded⟩ :
        ∃ text, file path = .ok text ∧ SessionConfig.load text explain = .ok config := by
      simpa only [Configured, named] using h
    simp only [command, read, named, there, runWith, loaded]

def outcome (lines : List String) : Except Fault Unit → Outcome
  | .ok () => ⟨0, lines, none⟩
  | .error f => failed lines f

theorem run_eq {r : Except Fault Unit}
    (ran : (monitor a config).execute application { app := [] } = .ok (r, w)) :
    run a config = outcome w.app.reverse r := by
  unfold run
  generalize (monitor a config).execute application = m at ran ⊢
  rw [StateT.run, ran]
  cases r with
  | ok => rfl
  | error f => rfl

/-- A run ends with exit code zero just if the configuration has the playback started or there are
no frames to send. It has then shown a line for every level that a listener was told, each on the
scale, and a last line with the levels that were shown last and the frames sent on each side. If
equal levels are told as well, there is a line for every frame on each side, provided that frames
hold a sample. Otherwise the playback does not take its first frame. -/
theorem command_completes_iff {args : List String} {file : String → Except String String}
    {explain : String → String} (read : Arguments.read args = .ok a)
    (configured : Configured a file explain config) :
    ((command args file explain).exit = 0 ↔ config.startStreams = true ∨ a.frames = 0) ∧
    ((command args file explain).exit = 0 → (command args file explain).problem = none ∧
      ∃ readings, Complete a config.effect readings (command args file explain).lines) ∧
    ((command args file explain).exit ≠ 0 → (command args file explain).exit = 1 ∧
      (command args file explain).problem =
        some "Error: InvalidState(\"playback cannot process while Realized\")") := by
  have limit : 999996 + 4 = depthLimit := rfl
  have yields := monitor_yields (Arguments.read_few read) 999996 configured.falls
  rw [limit] at yields
  obtain ⟨r, w, ran, ends⟩ := yields
  rw [command_eq read configured, run_eq ran]
  by_cases starts : config.startStreams = true ∨ a.frames = 0
  · rw [if_pos starts] at ends
    obtain ⟨rfl, complete⟩ := ends
    exact ⟨iff_of_true rfl starts, fun _ => ⟨rfl, complete⟩, fun wrong => absurd rfl wrong⟩
  · rw [if_neg starts] at ends
    subst ends
    have one : (1 : Nat) ≠ 0 := Nat.one_ne_zero
    exact ⟨iff_of_false one starts, fun wrong => absurd wrong one, fun _ => ⟨rfl, rfl⟩⟩

def noFiles (_ : String) : Except String String := .error noSuchFile

theorem command_completes_iff_plain :
    Arguments.read [] = .ok {} ∧ Configured {} noFiles SessionConfig.unexplained {} ∧
      (command [] noFiles).exit = 0 ∧
      ∃ readings, Complete {} {} readings (command [] noFiles).lines := by
  have configured : Configured {} noFiles SessionConfig.unexplained {} := rfl
  have completes := command_completes_iff (show Arguments.read [] = .ok {} from rfl) configured
  have done := completes.1.mpr (.inl rfl)
  exact ⟨rfl, configured, done, (completes.2.1 done).2⟩

/-- A configuration that leaves it to others to start the streams. -/
def manual : String := "\x7b\"start_receive_streams\": false\x7d"

/-- One frame without samples for each side. -/
def oneFrame : List String := ["--frames", "1", "--frame-ms", "0", "--config", "manual.json"]

/-- With such a configuration the playback never starts, and the run fails at its first frame. -/
theorem playback_never_started :
    (∃ a config, Arguments.read oneFrame = .ok a ∧
      Configured a (fun _ => .ok manual) SessionConfig.unexplained config) ∧
    command oneFrame (fun _ => .ok manual) =
      ⟨1, [], some "Error: InvalidState(\"playback cannot process while Realized\")"⟩ := by
  have loaded : SessionConfig.load manual = .ok { startStreams := false } := by decide +kernel
  have configured : Configured { config := some "manual.json" } (fun _ => .ok manual)
      SessionConfig.unexplained { startStreams := false } := ⟨manual, rfl, loaded⟩
  refine ⟨⟨{ frames := 1, frameMs := 0, config := some "manual.json" }, _, rfl, configured⟩, ?_⟩
  decide +kernel

end Runs

end Monitor

end Metering
