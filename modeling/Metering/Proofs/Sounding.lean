import Mathlib
import Metering.Media.Tone
/-!
What a source of tones gives, however its time is cut into frames. The phase of a sample depends
on how many samples came before it and on nothing else, so frames are parts of one endless tone,
and a frame that is silent or louder leaves what comes after it as it is.
-/

namespace Metering

/-- In a row of blocks of one width, a position within a block is found by the block. -/
theorem getElem?_blocks {α : Type} {width : Nat} {blocks : List (List α)}
    (even : ∀ b ∈ blocks, b.length = width) (i : Nat) {j : Nat} (within : j < width) :
    blocks.flatten[width * i + j]? = blocks[i]?.bind (·[j]?) := by
  induction blocks generalizing i with
  | nil => simp
  | cons b blocks ih =>
    have length := even b List.mem_cons_self
    cases i with
    | zero => simp [List.getElem?_append_left (length.symm ▸ within)]
    | succ i =>
      have beyond : width * (i + 1) + j = b.length + (width * i + j) := by
        rw [length, Nat.mul_succ]
        omega
      rw [List.flatten_cons, beyond, List.getElem?_append_right (Nat.le_add_right _ _),
        Nat.add_sub_cancel_left, ih fun c member => even c (List.mem_cons_of_mem _ member)]
      rfl

namespace Tone

variable (t : Tone) (amplitude : Float) (ms m n : Nat)

/-! ### The endless tone -/

/-- The phase of the sample that `n` others come before. -/
def phaseAt : Float := (advance t.step)^[n] t.phase

/-- The first `n` instants of the tone that goes on for ever from here. -/
def sound : List UInt8 :=
  (List.range n).flatMap fun i => instant t.format.channels.toNat (sample amplitude (t.phaseAt i))

/-- The source when `ms` milliseconds have passed. -/
def passed : Tone where
  format := t.format
  frequency := t.frequency
  amplitude := t.amplitude
  phase := t.phaseAt (t.instants ms)
  sequence := t.sequence + 1
  timestamp := t.timestamp + ms * 1000000

theorem run_eq (amplitude step : Float) (done : List Int) (n : Nat) (phase : Float) :
    run amplitude step done n phase =
      (done.reverse ++ (List.range n).map fun i => sample amplitude ((advance step)^[i] phase),
        (advance step)^[n] phase) := by
  induction n generalizing done phase with
  | zero => simp [run]
  | succ n ih =>
    rw [run, ih, List.range_succ_eq_map]
    simp [Function.comp_def]

/-- A frame holds the first instants of the tone, and the source goes on behind them, whatever
the amplitude was. -/
theorem frame_eq : t.frame ms amplitude =
    ({ data := t.sound amplitude (t.instants ms), format := .audio t.format
       timestamp := t.timestamp, sequence := t.sequence }, t.passed ms) := by
  simp only [frame, run_eq, List.reverse_nil, List.nil_append, List.flatMap_map, passed, sound,
    phaseAt]

/-- What is left of the tone behind a frame is what a source gives from there on. -/
theorem sound_add : t.sound amplitude (t.instants ms + n) =
    t.sound amplitude (t.instants ms) ++ (t.passed ms).sound amplitude n := by
  have later (i : Nat) : t.phaseAt (t.instants ms + i) = (t.passed ms).phaseAt i := by
    rw [phaseAt, Nat.add_comm, Function.iterate_add_apply]
    rfl
  simp only [sound, List.range_add, List.flatMap_append, List.flatMap_map, later]
  rfl

/-- A shorter part of the tone is how a longer one begins. -/
theorem sound_prefix {m n : Nat} (shorter : m ≤ n) :
    t.sound amplitude m <+: t.sound amplitude n := by
  obtain ⟨k, rfl⟩ := Nat.exists_eq_add_of_le shorter
  rw [sound, sound, List.range_add]
  exact (List.prefix_append _ _).flatMap _

theorem instant_length (channels : Nat) (s : Int) : (instant channels s).length = 2 * channels := by
  have two : ∀ b ∈ List.replicate channels (bytes s), b.length = 2 := by
    intro b member
    obtain rfl := List.eq_of_mem_replicate member
    rfl
  rw [instant, List.length_flatten, List.map_congr_left two]
  simp [Nat.mul_comm]

theorem sound_length : (t.sound amplitude n).length = 2 * t.format.channels.toNat * n := by
  simp [sound, List.length_flatMap, instant_length, Nat.mul_comm]

/-- All channels have the same sample at an instant. -/
theorem sound_channels {i c d j : Nat} (hc : c < t.format.channels.toNat)
    (hd : d < t.format.channels.toNat) (hj : j < 2) :
    (t.sound amplitude n)[2 * (t.format.channels.toNat * i + c) + j]? =
      (t.sound amplitude n)[2 * (t.format.channels.toNat * i + d) + j]? := by
  have one {c : Nat} (hc : c < t.format.channels.toNat) :
      (t.sound amplitude n)[2 * (t.format.channels.toNat * i + c) + j]? =
        ((List.range n)[i]?).bind fun i => (bytes (sample amplitude (t.phaseAt i)))[j]? := by
    have place : 2 * (t.format.channels.toNat * i + c) + j =
        2 * t.format.channels.toNat * i + (2 * c + j) := by
      rw [Nat.mul_add, Nat.mul_assoc, Nat.add_assoc]
    have even : ∀ b ∈ (List.range n).map fun i =>
        instant t.format.channels.toNat (sample amplitude (t.phaseAt i)),
        b.length = 2 * t.format.channels.toNat := by
      simp +contextual [instant_length]
    have instants := getElem?_blocks even i (j := 2 * c + j) (by omega)
    have within (s : Int) : (instant t.format.channels.toNat s)[2 * c + j]? = (bytes s)[j]? := by
      rw [instant, getElem?_blocks (fun b member => List.eq_of_mem_replicate member ▸ rfl) c hj,
        List.getElem?_replicate_of_lt hc]
      rfl
    rw [sound, place, List.flatMap_def, instants, List.getElem?_map, Option.bind_map]
    simp only [Function.comp_def, within]
  rw [one hc, one hd]

/-! ### Frames on request -/

/-- What is asked of a source. -/
inductive Request
  | next (ms : Nat)
  | silence (ms : Nat)
  | setAmplitude (amplitude : Float)

def frames (t : Tone) : List Request → List Buffer
  | [] => []
  | .next ms :: rest => (t.nextFrame ms).1 :: (t.nextFrame ms).2.frames rest
  | .silence ms :: rest => (t.silence ms).1 :: (t.silence ms).2.frames rest
  | .setAmplitude a :: rest => (t.setAmplitude a).frames rest

def heard (script : List Request) : List UInt8 := (t.frames script).flatMap Buffer.data

/-- How long the frames last that are asked for, in milliseconds. -/
def durations : List Request → List Nat
  | [] => []
  | .next ms :: rest => ms :: durations rest
  | .silence ms :: rest => ms :: durations rest
  | .setAmplitude _ :: rest => durations rest

def amplitudes (now : Float) : List Request → List Float
  | [] => []
  | .next _ :: rest => now :: amplitudes now rest
  | .silence _ :: rest => 0.0 :: amplitudes now rest
  | .setAmplitude a :: rest => amplitudes (Binary64.clampUnit a) rest

/-- The source when frames have passed that last so long. -/
def past (ds : List Nat) : Tone := ds.foldl passed t

/-- The amplitude is not among what a frame changes, or what it leaves to the next. -/
theorem past_setAmplitude (ds : List Nat) :
    (t.setAmplitude amplitude).past ds = (t.past ds).setAmplitude amplitude := by
  induction ds generalizing t with
  | nil => rfl
  | cons d ds ih => exact ih (t.passed d)

theorem past_rate (ds : List Nat) :
    (t.past ds).format = t.format ∧ (t.past ds).frequency = t.frequency ∧
      (t.past ds).amplitude = t.amplitude := by
  induction ds generalizing t with
  | nil => exact ⟨rfl, rfl, rfl⟩
  | cons d ds ih => exact ih (t.passed d)

theorem past_clock (ds : List Nat) :
    (t.past ds).sequence = t.sequence + ds.length ∧
      (t.past ds).timestamp = t.timestamp + 1000000 * ds.sum := by
  induction ds generalizing t with
  | nil => exact ⟨rfl, rfl⟩
  | cons d ds ih =>
    obtain ⟨sequence, timestamp⟩ := ih (t.passed d)
    change (t.past (d :: ds)).sequence = t.sequence + 1 + ds.length at sequence
    change (t.past (d :: ds)).timestamp = t.timestamp + d * 1000000 + 1000000 * ds.sum at timestamp
    rw [sequence, timestamp, List.length_cons, List.sum_cons]
    omega

theorem frames_next (ms : Nat) (rest : List Request) : t.frames (.next ms :: rest) =
    (t.frame ms t.amplitude).1 :: (t.passed ms).frames rest := by
  rw [frames, nextFrame, frame_eq]

theorem frames_silence (ms : Nat) (rest : List Request) : t.frames (.silence ms :: rest) =
    (t.frame ms 0.0).1 :: (t.passed ms).frames rest := by
  rw [frames, silence, frame_eq]

/-- Each frame has its duration and its amplitude, and stands behind the frames before it. -/
theorem frames_getElem? (script : List Request) (k : Nat) : (t.frames script)[k]? =
    ((durations script)[k]?).bind fun ms => ((amplitudes t.amplitude script)[k]?).map fun a =>
      ((t.past ((durations script).take k)).frame ms a).1 := by
  induction script generalizing t k with
  | nil => simp [frames, durations]
  | cons request rest ih =>
    cases request with
    | next ms =>
      rw [frames_next]
      cases k with
      | zero => rfl
      | succ k => exact ih (t.passed ms) k
    | silence ms =>
      rw [frames_silence]
      cases k with
      | zero => rfl
      | succ k => exact ih (t.passed ms) k
    | setAmplitude a =>
      have later := ih (t.setAmplitude a) k
      simp only [past_setAmplitude] at later
      exact later

theorem frames_length (script : List Request) :
    (t.frames script).length = (durations script).length := by
  induction script generalizing t with
  | nil => rfl
  | cons request rest ih =>
    cases request with
    | next ms => rw [frames_next, List.length_cons, ih, durations, List.length_cons]
    | silence ms => rw [frames_silence, List.length_cons, ih, durations, List.length_cons]
    | setAmplitude a => exact ih (t.setAmplitude a)

/-- A frame that is asked for has a place among the durations. -/
theorem of_frames_getElem? {t : Tone} {script : List Request} {k : Nat} {b : Buffer}
    (here : (t.frames script)[k]? = some b) : ∃ ms a, (durations script)[k]? = some ms ∧
      (amplitudes t.amplitude script)[k]? = some a ∧
      b = ((t.past ((durations script).take k)).frame ms a).1 := by
  rw [frames_getElem?] at here
  obtain ⟨ms, long, here⟩ := Option.bind_eq_some_iff.mp here
  obtain ⟨a, loud, rfl⟩ := Option.map_eq_some_iff.mp here
  exact ⟨ms, a, long, loud, rfl⟩

/-- A tone that is never silent and keeps its amplitude, whatever it is cut into. -/
theorem heard_next (ds : List Nat) :
    t.heard (ds.map .next) = t.sound t.amplitude (ds.map t.instants).sum := by
  induction ds generalizing t with
  | nil => rfl
  | cons d ds ih =>
    have first : t.heard ((d :: ds).map .next) =
        t.sound t.amplitude (t.instants d) ++ (t.passed d).heard (ds.map .next) := by
      rw [heard, List.map_cons, frames_next, List.flatMap_cons, frame_eq]
      rfl
    rw [first, ih, List.map_cons, List.sum_cons, sound_add]
    rfl

/-- Frames that follow each other without a gap, with the same sample on all channels. -/
structure Seamless (t : Tone) (ds : List Nat) (bs : List Buffer) : Prop where
  length : bs.length = ds.length
  sequence : ∀ {k : Nat} {b : Buffer}, bs[k]? = some b → b.sequence = t.sequence + k
  /-- A frame begins when those before it are over. -/
  timestamp : ∀ {k : Nat} {b : Buffer}, bs[k]? = some b →
    b.timestamp = t.timestamp + 1000000 * (ds.take k).sum
  whole : ∀ b ∈ bs, 2 * max t.format.channels.toNat 1 ∣ b.data.length
  /-- Both bytes of a sample are the same on every two channels. -/
  channels : ∀ b ∈ bs, ∀ {i c d j : Nat}, c < t.format.channels.toNat →
    d < t.format.channels.toNat → j < 2 →
      b.data[2 * (t.format.channels.toNat * i + c) + j]? =
        b.data[2 * (t.format.channels.toNat * i + d) + j]?

theorem frames_seamless (script : List Request) :
    t.Seamless (durations script) (t.frames script) where
  length := t.frames_length script
  sequence {k b} here := by
    obtain ⟨ms, a, long, -, rfl⟩ := of_frames_getElem? here
    have short : k ≤ (durations script).length := (List.getElem?_eq_some_iff.mp long).1.le
    rw [frame_eq, (t.past_clock _).1, List.length_take, Nat.min_eq_left short]
  timestamp {k b} here := by
    obtain ⟨ms, a, -, -, rfl⟩ := of_frames_getElem? here
    rw [frame_eq, (t.past_clock _).2]
  whole b member := by
    obtain ⟨k, here⟩ := List.mem_iff_getElem?.mp member
    obtain ⟨ms, a, -, -, rfl⟩ := of_frames_getElem? here
    rw [frame_eq, sound_length, (t.past_rate _).1]
    obtain none | some : t.format.channels.toNat = 0 ∨ 1 ≤ t.format.channels.toNat := by omega
    · simp [none]
    · rw [Nat.max_eq_left some]
      exact Nat.dvd_mul_right _ _
  channels b member {i c d j} hc hd hj := by
    obtain ⟨k, here⟩ := List.mem_iff_getElem?.mp member
    obtain ⟨ms, a, -, -, rfl⟩ := of_frames_getElem? here
    have same := (t.past_rate ((durations script).take k)).1
    rw [← same] at hc hd ⊢
    rw [frame_eq]
    exact sound_channels _ _ _ hc hd hj

/-- All of a frame but its data, of which only the length. -/
def outline (b : Buffer) : Buffer × Nat := ({ b with data := [] }, b.data.length)

/-- The outline of a frame does not depend on amplitudes. -/
theorem outline_getElem? (script : List Request) (k : Nat) :
    ((t.frames script).map outline)[k]? = ((durations script)[k]?).map fun ms =>
      outline ((t.past ((durations script).take k)).frame ms 0.0).1 := by
  rw [List.getElem?_map]
  cases here : (t.frames script)[k]? with
  | none =>
    have beyond := List.getElem?_eq_none_iff.mp here
    rw [frames_length] at beyond
    rw [List.getElem?_eq_none beyond]
    rfl
  | some b =>
    obtain ⟨ms, a, long, -, rfl⟩ := of_frames_getElem? here
    simp [long, outline, frame_eq, sound_length]

/-- The frames of a source follow each other without a gap. If all that is asked for are its next
frames, what is heard is the beginning of one and the same tone, however it is cut. If frames of
the same durations are asked for, they differ in their data at most, and only where they are made
with different amplitudes. -/
theorem tone_continues (t : Tone) :
    (∀ ds es : List Nat, t.heard (ds.map .next) <+: t.heard (es.map .next) ∨
      t.heard (es.map .next) <+: t.heard (ds.map .next)) ∧
    (∀ script other : List Request, durations script = durations other →
      (t.frames script).map outline = (t.frames other).map outline ∧
      ∀ k : Nat, (amplitudes t.amplitude script)[k]? = (amplitudes t.amplitude other)[k]? →
        (t.frames script)[k]? = (t.frames other)[k]?) ∧
    ∀ script : List Request, t.Seamless (durations script) (t.frames script) := by
  refine ⟨fun ds es => ?_, fun script other same => ⟨?_, fun k loud => ?_⟩, t.frames_seamless⟩
  · rw [heard_next, heard_next]
    exact (Nat.le_total _ _).imp (t.sound_prefix _) (t.sound_prefix _)
  · apply List.ext_getElem?
    intro k
    rw [outline_getElem?, outline_getElem?, same]
  · rw [frames_getElem?, frames_getElem?, same, loud]

/-- Two frames, the second at full amplitude. -/
def swell : List Request := [.next 20, .setAmplitude 1.0, .next 20]

/-- The same with a silent frame before it. -/
def entry : List Request := [.silence 20, .setAmplitude 1.0, .next 20]

theorem tone_continues_entry : durations swell = durations entry ∧
    (amplitudes 0.5 swell)[1]? = (amplitudes 0.5 entry)[1]? ∧
    ((new 8000.0 2 440.0 0.5).frames swell)[1]? =
      ((new 8000.0 2 440.0 0.5).frames entry)[1]? := by
  have half : (new 8000.0 2 440.0 0.5).amplitude = 0.5 := by decide +kernel
  obtain ⟨-, same, -⟩ := tone_continues (new 8000.0 2 440.0 0.5)
  have later := (same swell entry rfl).2 1
  rw [half] at later
  exact ⟨rfl, rfl, later rfl⟩

end Tone

end Metering
