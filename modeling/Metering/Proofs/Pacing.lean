import Mathlib
import Metering.Proofs.Nearing
import Metering.Proofs.Sounding
/-!
How a source of tones keeps pace with its timestamps. A frame has whole samples only. The next frame
does not make up for the part of a sample that its duration leaves over, while the timestamps go on
by all of the duration, so the tone falls behind by what its frames leave over together.
-/

namespace Metering

namespace Binary64

theorem Exactly.mul_natCast {x y : Float} {m n : ℕ} (hx : Exactly x m) (hy : Exactly y n)
    (few : m * n ≤ 2 ^ 53) : Exactly (x * y) (m * n : ℕ) := by
  have product := mul_nears hx.finite hy.finite
  rw [hx.real_eq, hy.real_eq, ← Nat.cast_mul] at product
  exact product.exactly (rounded_natCast few) (abs_natCast_le few)

/-- However near thousandths are to the next whole number, rounding does not take them there. -/
theorem floor_rounded_thousandths {n : ℕ} (few : n ≤ 2 ^ 53) :
    ⌊rounded (n / 1000)⌋₊ = n / 1000 := by
  obtain rfl | some := n.eq_zero_or_pos
  · simp [rounded_zero]
  have whole : ⌊(n / 1000 : ℝ)⌋₊ = n / 1000 := by
    exact_mod_cast Nat.floor_div_eq_div (K := ℝ) n 1000
  have below : (n / 1000 : ℝ) < 2 ^ (53 + -9 : ℤ) := by
    have few : (n : ℝ) ≤ 2 ^ 53 := by exact_mod_cast few
    rw [div_lt_iff₀ (by norm_num)]
    exact few.trans_lt (by norm_num)
  -- Half of the last digit is a little less than one thousandth.
  have last : (2 : ℝ) ^ place (n / 1000) ≤ 2 ^ (-9 : ℤ) :=
    zpow_le_zpow_right₀ (by norm_num) (place_le (by positivity) below (by norm_num))
  have split : (n : ℝ) = 1000 * (n / 1000 : ℕ) + (n % 1000 : ℕ) := by
    exact_mod_cast (Nat.div_add_mod n 1000).symm
  have rest : ((n % 1000 : ℕ) : ℝ) ≤ 999 := by
    exact_mod_cast Nat.le_of_lt_succ (Nat.mod_lt n (by decide))
  rw [← whole]
  refine floor_rounded (by positivity) ?_ ?_
  · rw [whole]
    omega
  · rw [whole]
    norm_num at last
    linarith

/-- A number is divided by a thousand and cut as if nothing were rounded between the two. -/
theorem truncate_thousandths {x : Float} {n : ℕ} (exact : Exactly x n) (few : n ≤ 2 ^ 53)
    (lo hi : ℤ) : truncate lo hi (x / 1000.0) = clamp lo hi (n / 1000 : ℕ) := by
  have thousand : real 1000.0 = 1000 := by
    rw [real_of_unpack (m := 125 * 2 ^ 46) (e := -43) (by decide) (by rfl)]
    norm_num
  have quotient : Nears (x / 1000.0) (n / 1000) := by
    have nears := div_nears exact.finite (y := 1000.0) (by rfl) (by rw [thousand]; norm_num)
    rwa [exact.real_eq, thousand] at nears
  have nonneg := rounded_nonneg (x := n / 1000) (by positivity)
  have smaller : (n : ℝ) / 1000 ≤ n := div_le_self n.cast_nonneg (by norm_num)
  have within : |rounded (n / 1000)| ≤ 2 ^ 64 := by
    calc |rounded (n / 1000)|
        ≤ rounded n := (abs_of_nonneg nonneg).trans_le (rounded_mono smaller)
      _ = n := rounded_natCast few
      _ ≤ 2 ^ 64 := (le_abs_self _).trans (abs_natCast_le few)
  have same := quotient.real_eq_rounded within
  rw [truncate_eq quotient.number (same ▸ nonneg), same, floor_rounded_thousandths few]

theorem exactly_11025 : Exactly 11025.0 (11025 : ℕ) := by
  refine ⟨by rfl, ?_⟩
  rw [real_of_unpack (m := 11025 * 2 ^ 39) (e := -39) (by decide) (by rfl)]
  norm_num

end Binary64

namespace Tone

open Binary64

/-- Samples of 16 bits that a frame has on each of its channels. -/
def samplesEach (channels : ℕ) (b : Buffer) : ℕ := b.data.length / (2 * channels)

/-- Samples on each channel in all the frames before one of them. -/
def samplesBefore (t : Tone) (script : List Request) (k : ℕ) : ℕ :=
  (((t.frames script).take k).map (samplesEach t.format.channels.toNat)).sum

/-- Each frame begins less than one sample from where its timestamp has it. -/
def InPace (t : Tone) (rate : ℕ) (script : List Request) : Prop :=
  ∀ (k : ℕ) (b : Buffer), (t.frames script)[k]? = some b →
    |(t.samplesBefore script k : ℚ) - rate * b.timestamp / 10 ^ 9| < 1

/-- A double counts the thousandths of samples that each of the frames lasts, and 64 bits count the
nanoseconds that all of them last. -/
def Counted (rate : ℕ) (script : List Request) : Prop :=
  (∀ ms ∈ durations script, rate * ms ≤ 2 ^ 53) ∧ 10 ^ 6 * (durations script).sum < 2 ^ 64

instance (rate : ℕ) (script : List Request) : Decidable (Counted rate script) :=
  inferInstanceAs (Decidable (_ ∧ _))

/-- Thousandths of a sample that frames of such durations leave over. -/
def leftOver (rate : ℕ) (ds : List ℕ) : ℕ := (ds.map (rate * · % 1000)).sum

/-- A source that has given nothing yet, with a whole number of samples in a second. -/
structure Steady (t : Tone) (rate : ℕ) : Prop where
  exact : Exactly t.format.sampleRate rate
  positive : 0 < rate
  channels : 0 < t.format.channels.toNat
  timestamp : t.timestamp = 0

theorem new_steady {sampleRate : Float} {rate : ℕ} (exact : Exactly sampleRate rate)
    (positive : 0 < rate) (channels : UInt16) (frequency amplitude : Float) :
    (new sampleRate channels frequency amplitude).Steady rate where
  exact := exact
  positive := positive
  channels := by
    change 0 < (if channels ≤ 1 then 1 else channels).toNat
    split_ifs with few
    · decide
    · have := mt UInt16.le_iff_toNat_le.mpr few
      omega
  timestamp := rfl

/-! ### The samples of a frame -/

theorem instants_eq {t : Tone} {rate ms : ℕ} (exact : Exactly t.format.sampleRate rate)
    (positive : 0 < rate) (few : rate * ms ≤ 2 ^ 53) : t.instants ms = rate * ms / 1000 := by
  have time : Exactly (Float.ofNat ms) ms :=
    ofNat_exactly ((Nat.le_mul_of_pos_left ms positive).trans few)
  rw [instants, truncate_thousandths (exact.mul_natCast time few) few, clamp]
  omega

theorem samplesEach_frame {t : Tone} (channels : 0 < t.format.channels.toNat) (ms : ℕ)
    (amplitude : Float) :
    samplesEach t.format.channels.toNat (t.frame ms amplitude).1 = t.instants ms := by
  rw [samplesEach, frame_eq, sound_length, Nat.mul_div_cancel_left _ (by omega)]

/-- The durations alone tell how many samples the frames have. -/
theorem map_samplesEach {t : Tone} (channels : 0 < t.format.channels.toNat)
    (script : List Request) :
    (t.frames script).map (samplesEach t.format.channels.toNat) =
      (durations script).map t.instants := by
  induction script generalizing t with
  | nil => rfl
  | cons request rest ih =>
    cases request with
    | next ms =>
      rw [frames_next, durations, List.map_cons, List.map_cons, samplesEach_frame channels]
      exact congrArg _ (@ih (t.passed ms) channels)
    | silence ms =>
      rw [frames_silence, durations, List.map_cons, List.map_cons, samplesEach_frame channels]
      exact congrArg _ (@ih (t.passed ms) channels)
    | setAmplitude a => exact @ih (t.setAmplitude a) channels

theorem samplesBefore_eq {t : Tone} {rate : ℕ} (steady : t.Steady rate) {script : List Request}
    (counted : Counted rate script) (k : ℕ) :
    t.samplesBefore script k = (((durations script).take k).map (rate * · / 1000)).sum := by
  rw [samplesBefore, List.map_take, map_samplesEach steady.channels, ← List.map_take]
  congr 1
  refine List.map_congr_left fun ms member => ?_
  exact instants_eq steady.exact steady.positive (counted.1 ms (List.mem_of_mem_take member))

/-! ### What is left over -/

/-- Whole samples and what is left over make up all of the time. -/
theorem sum_add_leftOver (rate : ℕ) (ds : List ℕ) :
    1000 * (ds.map (rate * · / 1000)).sum + leftOver rate ds = rate * ds.sum := by
  induction ds with
  | nil => rfl
  | cons ms ds ih =>
    have split := Nat.div_add_mod (rate * ms) 1000
    simp only [leftOver, List.map_cons, List.sum_cons, Nat.mul_add] at ih ⊢
    omega

theorem leftOver_mono (rate : ℕ) {ds es : List ℕ} (earlier : ds <+: es) :
    leftOver rate ds ≤ leftOver rate es := by
  obtain ⟨later, rfl⟩ := earlier
  simp [leftOver]

theorem leftOver_of_dvd {rate : ℕ} (whole : 1000 ∣ rate) (ds : List ℕ) : leftOver rate ds = 0 := by
  have none (ms : ℕ) : rate * ms % 1000 = 0 := Nat.mod_eq_zero_of_dvd (whole.mul_right ms)
  simp [leftOver, none]

section Behind
variable {t : Tone} {rate : ℕ} {script : List Request} {k : ℕ} {b : Buffer}

/-- The timestamps stay within 64 bits. -/
theorem timestamp_lt (steady : t.Steady rate) (counted : Counted rate script)
    (here : (t.frames script)[k]? = some b) : b.timestamp < 2 ^ 64 := by
  have part := ((durations script).take_sublist k).sum_le_sum fun _ _ => Nat.zero_le _
  have whole := counted.2
  rw [(t.frames_seamless script).timestamp here, steady.timestamp]
  omega

theorem behind_eq (steady : t.Steady rate) (counted : Counted rate script)
    (here : (t.frames script)[k]? = some b) :
    (rate * b.timestamp / 10 ^ 9 : ℚ) - t.samplesBefore script k =
      leftOver rate ((durations script).take k) / 1000 := by
  have clock := (t.frames_seamless script).timestamp here
  have whole := sum_add_leftOver rate ((durations script).take k)
  rw [← samplesBefore_eq steady counted, ← @Nat.cast_inj ℚ] at whole
  rw [clock, steady.timestamp]
  push_cast at whole ⊢
  linarith

theorem abs_sub_lt_one_iff (steady : t.Steady rate) (counted : Counted rate script)
    (here : (t.frames script)[k]? = some b) :
    |(t.samplesBefore script k : ℚ) - rate * b.timestamp / 10 ^ 9| < 1 ↔
      leftOver rate ((durations script).take k) < 1000 := by
  rw [abs_sub_comm, behind_eq steady counted here, abs_of_nonneg (by positivity),
    div_lt_one (by norm_num)]
  norm_cast

/-- Nothing is made up for, so it is enough to look at the last frame. -/
theorem inPace_iff (steady : t.Steady rate) (counted : Counted rate script) :
    t.InPace rate script ↔ leftOver rate (durations script).dropLast < 1000 := by
  have length := t.frames_length script
  rw [List.dropLast_eq_take, ← length]
  constructor
  · intro pace
    obtain none | some := (t.frames script).length.eq_zero_or_pos
    · rw [none]
      exact Nat.zero_lt_succ 999
    · have last := List.getElem?_eq_getElem (Nat.sub_lt some Nat.one_pos)
      exact (abs_sub_lt_one_iff steady counted last).mp (pace _ _ last)
  · intro less k b here
    have before := (List.getElem?_eq_some_iff.mp here).1
    have earlier := List.take_prefix_take_left (l := durations script) (Nat.le_sub_one_of_lt before)
    exact (abs_sub_lt_one_iff steady counted here).mpr ((leftOver_mono rate earlier).trans_lt less)

end Behind

theorem durations_map_next (ds : List ℕ) : durations (ds.map .next) = ds := by
  induction ds with
  | nil => rfl
  | cons ms ds ih => rw [List.map_cons, durations, ih]

/-- A thousand frames of one millisecond are too many for a rate that is not whole. -/
theorem always_inPace_iff {t : Tone} {rate : ℕ} (steady : t.Steady rate) (few : rate ≤ 2 ^ 53) :
    (∀ script, Counted rate script → t.InPace rate script) ↔ 1000 ∣ rate := by
  constructor
  · intro always
    have lasts := durations_map_next (List.replicate 1001 1)
    have counted : Counted rate ((List.replicate 1001 1).map .next) := by
      rw [Counted, lasts, List.sum_replicate]
      refine ⟨fun ms member => ?_, by norm_num⟩
      rw [List.eq_of_mem_replicate member, Nat.mul_one]
      exact few
    have less := (inPace_iff steady counted).mp (always _ counted)
    rw [lasts, List.dropLast_replicate, leftOver, List.map_replicate, List.sum_replicate] at less
    simp only [smul_eq_mul] at less
    omega
  · intro whole script counted
    rw [inPace_iff steady counted, leftOver_of_dvd whole]
    exact Nat.zero_lt_succ 999

/-- A tone is never ahead of its timestamps, and it is behind them by what the frames so far have
left over, silent or not. So it keeps pace exactly if all frames but the last leave over less than
one sample together, and it does so however its time is cut exactly if there is a whole number of
samples in a millisecond. -/
theorem keeps_pace_iff {sampleRate : Float} {rate : ℕ} (exact : Exactly sampleRate rate)
    (positive : 1 ≤ rate) (channels : UInt16) (frequency amplitude : Float) :
    let t := new sampleRate channels frequency amplitude
    (∀ script : List Request, Counted rate script →
      (∀ (k : ℕ) (b : Buffer), (t.frames script)[k]? = some b → b.timestamp < 2 ^ 64 ∧
        (rate * b.timestamp / 10 ^ 9 : ℚ) - t.samplesBefore script k =
          leftOver rate ((durations script).take k) / 1000) ∧
      (t.InPace rate script ↔ leftOver rate (durations script).dropLast < 1000)) ∧
    (rate ≤ 2 ^ 53 →
      ((∀ script : List Request, Counted rate script → t.InPace rate script) ↔ 1000 ∣ rate)) := by
  intro t
  have steady : t.Steady rate := new_steady exact positive channels frequency amplitude
  refine ⟨fun script counted => ⟨fun k b here => ?_, inPace_iff steady counted⟩,
    always_inPace_iff steady⟩
  exact ⟨timestamp_lt steady counted here, behind_eq steady counted here⟩

/-- Two frames that leave over three quarters of a sample, and one behind them. -/
theorem keeps_pace_iff_quarters :
    let t := new 11025.0 2 440.0 0.5
    let script : List Request := [.next 20, .setAmplitude 1.0, .silence 10, .next 5]
    Exactly 11025.0 (11025 : ℕ) ∧ 1 ≤ 11025 ∧ Counted 11025 script ∧
      (∃ b, (t.frames script)[2]? = some b ∧
        ((11025 : ℕ) * b.timestamp / 10 ^ 9 : ℚ) - t.samplesBefore script 2 = 3 / 4) ∧
      t.InPace 11025 script ∧
      ¬∀ script : List Request, Counted 11025 script → t.InPace 11025 script := by
  intro t script
  have counted : Counted 11025 script := by decide
  have length : (t.frames script).length = 3 := t.frames_length script
  have here : (t.frames script)[2]? = some (t.frames script)[2] := List.getElem?_eq_getElem _
  obtain ⟨runs, rate⟩ := keeps_pace_iff exactly_11025 (by decide) 2 440.0 0.5
  obtain ⟨behind, pace⟩ := runs script counted
  refine ⟨exactly_11025, by decide, counted, ⟨_, here, ?_⟩, pace.mpr (by decide),
    (rate (by norm_num)).not.mpr (by decide)⟩
  have left : leftOver 11025 ((durations script).take 2) = 750 := by decide
  rw [(behind 2 _ here).2, left]
  norm_num

/-- Twenty milliseconds are 220 samples and a half. After three frames of them the tone is a sample
and a half behind. -/
theorem tone_falls_behind :
    let t := new 11025.0 1 440.0 0.5
    let script := List.replicate 4 (Request.silence 20)
    Exactly 11025.0 (11025 : ℕ) ∧ Counted 11025 script ∧
      (∃ b, (t.frames script)[3]? = some b ∧ b.timestamp = 60000000) ∧
      t.samplesBefore script 3 = 660 ∧ ¬t.InPace 11025 script := by
  intro t script
  have steady : t.Steady 11025 := new_steady exactly_11025 (by decide) 1 440.0 0.5
  have counted : Counted 11025 script := by decide
  have length : (t.frames script).length = 4 := t.frames_length script
  have here : (t.frames script)[3]? = some (t.frames script)[3] := List.getElem?_eq_getElem _
  have clock : (t.frames script)[3].timestamp = 60000000 := by
    rw [(t.frames_seamless script).timestamp here, steady.timestamp]
    decide
  have samples : t.samplesBefore script 3 = 660 := by
    rw [samplesBefore_eq steady counted]
    decide
  refine ⟨exactly_11025, counted, ⟨_, here, clock⟩, samples, fun pace => ?_⟩
  have near := pace 3 _ here
  rw [clock, samples] at near
  norm_num at near

end Tone

end Metering
