import Metering.Proofs.Doubles
import Metering.Proofs.Levels
/-!
Layouts of linear samples. Whichever way a value is laid out in bytes, the same sample is read back,
and the samples are all that a frame is measured by.
-/

namespace Metering

/-- Linear samples of so many bits, in any layout, at any rate and on any number of channels. -/
structure AudioFormat.Linear (f : AudioFormat) (bits : UInt16) : Prop where
  encoding : f.encoding = .linear
  sampleBits : f.sampleBits = bits

namespace Pcm

/-- The word of `size` values that stands for a value. Signed values are in two's complement, and
unsigned ones are counted from the least. -/
def wordOf (signed : Bool) (size : Nat) (v : Int) : Nat :=
  (if signed then v % size else v + size / 2).toNat

def encode8 (signed : Bool) (v : Int8) : UInt8 := UInt8.ofNat (wordOf signed 256 v.toInt)

def encode16 (order : ByteOrder) (signed : Bool) (v : Int16) : List UInt8 :=
  let n := wordOf signed 65536 v.toInt
  match order with
  | .little => [UInt8.ofNat n, UInt8.ofNat (n / 256)]
  | .big => [UInt8.ofNat (n / 256), UInt8.ofNat n]

/-- A value of 8 bits on the scale of 16 bits. -/
def widened (v : Int8) : Int16 := Int16.ofInt (256 * v.toInt)

section Words
variable {half : Nat} {v : Int} (low : -half ≤ v) (high : v < half)
include low high

/-- In two's complement the negative values come after the others. -/
theorem emod_two_mul : v % (2 * half : Nat) = if 0 ≤ v then v else v + 2 * half := by
  split
  · exact Int.emod_eq_of_lt (by omega) (by omega)
  · rw [← Int.add_emod_right]
    exact Int.emod_eq_of_lt (by omega) (by omega)

theorem wordOf_lt (signed : Bool) : wordOf signed (2 * half) v < 2 * half := by
  cases signed with
  | true =>
    simp only [wordOf, if_true, emod_two_mul low high]
    split <;> omega
  | false =>
    simp only [wordOf, Bool.false_eq_true, if_false]
    omega

/-- The value of a word is the one it stands for. -/
theorem centered_wordOf (signed : Bool) :
    centered signed (2 * half) (wordOf signed (2 * half) v) = v := by
  cases signed with
  | true =>
    simp only [centered, wordOf, if_true, emod_two_mul low high]
    split <;> split <;> omega
  | false =>
    simp only [centered, wordOf, Bool.false_eq_true, if_false]
    omega

end Words

theorem centered_encode8 (signed : Bool) (v : Int8) :
    centered signed 256 (encode8 signed v).toNat = v.toInt := by
  have low : -(128 : Nat) ≤ v.toInt := v.le_toInt
  have high : v.toInt < (128 : Nat) := v.toInt_lt
  have small := wordOf_lt low high signed
  rw [encode8, UInt8.toNat_ofNat', Nat.mod_eq_of_lt small]
  exact centered_wordOf low high signed

/-- The bytes of a value are read as one sample. -/
theorem pairs_encode16 (order : ByteOrder) (signed : Bool) (done : List Int) (v : Int16)
    (data : List UInt8) : pairs order signed done (encode16 order signed v ++ data) =
      pairs order signed (v.toInt :: done) data := by
  have low : -(32768 : Nat) ≤ v.toInt := v.le_toInt
  have high : v.toInt < (32768 : Nat) := v.toInt_lt
  have small : wordOf signed 65536 v.toInt < 65536 := wordOf_lt low high signed
  have same : centered signed 65536 (wordOf signed 65536 v.toInt) = v.toInt :=
    centered_wordOf low high signed
  cases order with
  | little =>
    have whole : word .little (UInt8.ofNat (wordOf signed 65536 v.toInt))
        (UInt8.ofNat (wordOf signed 65536 v.toInt / 256)) = wordOf signed 65536 v.toInt := by
      simp only [word, UInt8.toNat_ofNat']
      omega
    simp only [encode16, List.cons_append, List.nil_append, pairs, whole, same]
  | big =>
    have whole : word .big (UInt8.ofNat (wordOf signed 65536 v.toInt / 256))
        (UInt8.ofNat (wordOf signed 65536 v.toInt)) = wordOf signed 65536 v.toInt := by
      simp only [word, UInt8.toNat_ofNat']
      omega
    simp only [encode16, List.cons_append, List.nil_append, pairs, whole, same]

/-- Behind whole values one byte is left over at most, and it is no sample. -/
theorem pairs_encoded (order : ByteOrder) (signed : Bool) (done : List Int) (vs : List Int16)
    {rest : List UInt8} (short : rest.length ≤ 1) :
    pairs order signed done (vs.flatMap (encode16 order signed) ++ rest) =
      done.reverse ++ vs.map (·.toInt) := by
  induction vs generalizing done with
  | nil =>
    match rest, short with
    | [], _ => simp [pairs]
    | [_], _ => simp [pairs]
  | cons v vs ih =>
    rw [List.flatMap_cons, List.append_assoc, pairs_encode16, ih]
    simp

section Formats
variable {f : AudioFormat}

theorem samples?_encode16 (linear : f.Linear 16) (vs : List Int16) {rest : List UInt8}
    (short : rest.length ≤ 1) :
    samples? f (vs.flatMap (encode16 f.order f.signed) ++ rest) = some (vs.map (·.toInt)) := by
  simp [samples?, AudioFormat.isLinear, linear.encoding, linear.sampleBits,
    pairs_encoded _ _ _ _ short]

theorem samples?_encode8 (linear : f.Linear 8) (vs : List Int8) :
    samples? f (vs.map (encode8 f.signed)) = some (vs.map (·.toInt)) := by
  simp [samples?, AudioFormat.isLinear, linear.encoding, linear.sampleBits, centered_encode8]

theorem power?_samples {data : List UInt8} {samples : List Int}
    (read : samples? f data = some samples) (filled : samples ≠ []) :
    power? f data = some (rootMeanSquare (fullScale f) samples) := by
  cases samples with
  | nil => exact absurd rfl filled
  | cons s rest => rw [power?, read]

theorem fullScale_linear16 (linear : f.Linear 16) : fullScale f = 32768 :=
  if_neg (by rw [linear.sampleBits]; decide)

theorem toInt_widened (v : Int8) : (widened v).toInt = 256 * v.toInt := by
  have low := v.le_toInt
  have high := v.toInt_lt
  have size : Int16.size = 65536 := rfl
  rw [widened, Int16.toInt_ofInt]
  exact Int.bmod_eq_of_le (by omega) (by omega)

end Formats

/-! ### Samples -/

def InScale (full : Nat) (s : Int) : Prop := -full ≤ s ∧ s < full

theorem centered_inScale (signed : Bool) {half n : Nat} (small : n < 2 * half) :
    InScale half (centered signed (2 * half) n) := by
  unfold centered InScale
  split_ifs <;> omega

theorem word_lt (order : ByteOrder) (first second : UInt8) : word order first second < 65536 := by
  have := first.toNat_lt
  have := second.toNat_lt
  cases order <;> simp only [word] <;> omega

theorem pairs_inScale (order : ByteOrder) (signed : Bool) {done : List Int}
    (before : ∀ s ∈ done, InScale 32768 s) (data : List UInt8) :
    ∀ s ∈ pairs order signed done data, InScale 32768 s := by
  induction done, data using pairs.induct order signed with
  | case1 done first second rest ih =>
    rw [pairs]
    refine ih fun s member => ?_
    obtain rfl | earlier := List.mem_cons.mp member
    · exact @centered_inScale signed 32768 _ (word_lt order first second)
    · exact before s earlier
  | case2 data done short =>
    rw [pairs]
    · intro s member
      exact before s (List.mem_reverse.mp member)
    · exact short

section Samples
variable {f : AudioFormat} {data : List UInt8} {samples : List Int}

theorem samples?_inScale (read : samples? f data = some samples) :
    ∀ s ∈ samples, InScale (fullScale f) s := by
  unfold samples? at read
  unfold fullScale
  split_ifs at read ⊢
  · obtain rfl := Option.some.inj read
    intro s member
    obtain ⟨b, -, rfl⟩ := List.mem_map.mp member
    exact @centered_inScale f.signed 128 _ b.toNat_lt
  · obtain rfl := Option.some.inj read
    exact pairs_inScale f.order f.signed (by simp) data

/-- Full scale is a power of two. -/
theorem fullScale_eq (f : AudioFormat) : ∃ k ≤ 15, fullScale f = 2 ^ k := by
  unfold fullScale
  split
  · exact ⟨7, by decide, rfl⟩
  · exact ⟨15, by decide, rfl⟩

end Samples

section Normalized
open Binary64

variable {k : ℕ} {s : Int}

theorem abs_div_full_le {full : Nat} (inScale : InScale full s) : |(s / full : ℝ)| ≤ 1 := by
  have low : -(full : ℝ) ≤ s := by exact_mod_cast inScale.1
  have high : (s : ℝ) ≤ full := by exact_mod_cast inScale.2.le
  rw [abs_div, Nat.abs_cast]
  exact div_le_one_of_le₀ (abs_le.mpr ⟨low, high⟩) (Nat.cast_nonneg full)

/-- A quotient by a power of two has the digits of the sample. -/
theorem rounded_div_full (few : k ≤ 15) (inScale : InScale (2 ^ k) s) :
    rounded (s / (2 ^ k : ℕ)) = s / (2 ^ k : ℕ) := by
  have most : (2 : Nat) ^ k ≤ 2 ^ 15 := Nat.pow_le_pow_right (by decide) few
  obtain ⟨low, high⟩ := inScale
  have digits : (s : ℝ) / (2 ^ k : ℕ) = s * 2 ^ (-k : ℤ) := by
    rw [zpow_neg, div_eq_mul_inv]
    norm_num
  rw [digits]
  exact rounded_exact_int (by omega) (by omega)

/-- Full scale is divided by without rounding. -/
theorem normalize_exactly (few : k ≤ 15) (inScale : InScale (2 ^ k) s) :
    Exactly (normalize (2 ^ k) s) (s / (2 ^ k : ℕ)) := by
  have most : (2 : Nat) ^ k ≤ 2 ^ 15 := Nat.pow_le_pow_right (by decide) few
  obtain ⟨low, high⟩ := id inScale
  have whole : Exactly (Float.ofInt s) s := ofInt_exactly (by omega)
  have full : Exactly (Float.ofNat (2 ^ k)) (2 ^ k : ℕ) := ofNat_exactly (by omega)
  have quotient : Nears (normalize (2 ^ k) s) (s / (2 ^ k : ℕ)) := by
    have := div_nears whole.finite full.finite (by rw [full.real_eq]; positivity)
    rwa [whole.real_eq, full.real_eq] at this
  exact quotient.exactly (rounded_div_full few inScale)
    ((abs_div_full_le inScale).trans (by norm_num))

/-- A sample of 8 bits is the same double as it is on the scale of 16 bits. -/
theorem normalize_widened (inScale : InScale 128 s) :
    normalize 128 s = normalize 32768 (256 * s) := by
  obtain rfl | some := eq_or_ne s 0
  · decide +kernel
  have nonzero : (s : ℝ) ≠ 0 := Int.cast_ne_zero.mpr some
  obtain ⟨low, high⟩ := id inScale
  have narrow : Exactly (Float.ofInt s) s := ofInt_exactly (by omega)
  have wide : Exactly (Float.ofInt (256 * s)) (256 * s : ℤ) := ofInt_exactly (by omega)
  have few : Exactly (Float.ofNat 128) (128 : ℕ) := ofNat_exactly (by norm_num)
  have many : Exactly (Float.ofNat 32768) (32768 : ℕ) := ofNat_exactly (by norm_num)
  refine div_eq_div narrow.finite few.finite ?_ wide.finite many.finite ?_ ?_ ?_
  · rw [few.real_eq]
    norm_num
  · rw [many.real_eq]
    norm_num
  · rw [narrow.real_eq, few.real_eq, wide.real_eq, many.real_eq]
    push_cast
    ring
  · have kept : rounded ((s : ℝ) / (128 : ℕ)) = s / (128 : ℕ) :=
      @rounded_div_full 7 s (by decide) inScale
    rw [narrow.real_eq, few.real_eq, kept]
    positivity

end Normalized

/-! ### One scale -/

/-- A step of the scale of a format, in steps of the scale of 16 bits. -/
def stepSize (f : AudioFormat) : Int := if f.sampleBits = 8 then 256 else 1

/-- The samples of a frame on the scale of 16 bits. -/
def wideSamples? (f : AudioFormat) (data : List UInt8) : Option (List Int) :=
  (samples? f data).map (·.map (stepSize f * ·))

section Wide
variable {f : AudioFormat} {data : List UInt8} {samples : List Int}

theorem normalize_wide {s : Int} (inScale : InScale (fullScale f) s) :
    normalize (fullScale f) s = normalize 32768 (stepSize f * s) := by
  unfold fullScale stepSize at *
  split_ifs at *
  · exact normalize_widened inScale
  · rw [one_mul]

theorem wide_inScale {s : Int} (inScale : InScale (fullScale f) s) :
    InScale 32768 (stepSize f * s) := by
  unfold fullScale stepSize InScale at *
  split_ifs at * <;> omega

theorem wideSamples?_inScale (read : wideSamples? f data = some samples) :
    ∀ s ∈ samples, InScale 32768 s := by
  obtain ⟨own, narrow, rfl⟩ := Option.map_eq_some_iff.mp read
  intro s member
  obtain ⟨t, here, rfl⟩ := List.mem_map.mp member
  exact wide_inScale (samples?_inScale narrow t here)

/-- On the scale of 16 bits a frame has the root mean square that it has on its own. -/
theorem power?_eq_wide (f : AudioFormat) (data : List UInt8) :
    power? f data = (wideSamples? f data).bind fun ss =>
      if ss = [] then none else some (rootMeanSquare 32768 ss) := by
  unfold power? wideSamples?
  cases read : samples? f data with
  | none => rfl
  | some own =>
    have energies : energy (fullScale f) own = energy 32768 (own.map (stepSize f * ·)) := by
      unfold energy
      rw [List.foldl_map]
      refine List.foldl_ext _ _ _ fun sum s member => ?_
      rw [normalize_wide (samples?_inScale read s member)]
    have same : rootMeanSquare (fullScale f) own =
        rootMeanSquare 32768 (own.map (stepSize f * ·)) := by
      rw [rootMeanSquare, rootMeanSquare, energies, List.length_map]
    cases own with
    | nil => rfl
    | cons s rest => exact congrArg some same

theorem power?_wide (read : wideSamples? f data = some samples) (filled : samples ≠ []) :
    power? f data = some (rootMeanSquare 32768 samples) := by
  rw [power?_eq_wide, read, Option.bind_some, if_neg filled]

end Wide

open Binary64 in
/-- One list of values gives one result in all layouts, at any rate and on any number of channels,
and a byte left over does not change it. Values of 8 bits give what they give on the scale of 16
bits. There is no result if the coding is not linear, if the samples have another size, or if there
is not a whole one. Samples are worked with as the real numbers that they are, full scale being
one. -/
theorem layouts_agree :
    (∀ vs : List Int16, vs ≠ [] → ∃ rms, ∀ f : AudioFormat, f.Linear 16 → ∀ stray : Option UInt8,
      power? f (vs.flatMap (encode16 f.order f.signed) ++ stray.toList) = some rms) ∧
    (∀ vs : List Int8, vs ≠ [] → ∃ rms,
      (∀ f : AudioFormat, f.Linear 8 → power? f (vs.map (encode8 f.signed)) = some rms) ∧
      ∀ f : AudioFormat, f.Linear 16 →
        power? f ((vs.map widened).flatMap (encode16 f.order f.signed)) = some rms) ∧
    (∀ (f : AudioFormat) (rate : Float) (channels : UInt16) (data : List UInt8),
      power? { f with sampleRate := rate, channels } data = power? f data) ∧
    (∀ (f : AudioFormat) (data : List UInt8), power? f data = none ↔
      f.encoding ≠ .linear ∨ (f.sampleBits ≠ 8 ∧ f.sampleBits ≠ 16) ∨
        data.length < f.bytesPerSample) ∧
    ∀ (f : AudioFormat) (data : List UInt8) (samples : List Int), samples? f data = some samples →
      ∀ s ∈ samples, -1 ≤ (s / fullScale f : ℝ) ∧ (s / fullScale f : ℝ) < 1 ∧
        Exactly (normalize (fullScale f) s) (s / fullScale f) := by
  refine ⟨fun vs filled => ?_, fun vs filled => ?_, fun _ _ _ _ => rfl, fun f data => ?_,
    fun f data samples read s member => ?_⟩
  · refine ⟨rootMeanSquare 32768 (vs.map (·.toInt)), fun f linear stray => ?_⟩
    have short : stray.toList.length ≤ 1 := by cases stray <;> simp
    rw [power?_samples (samples?_encode16 linear vs short) (by simpa using filled),
      fullScale_linear16 linear]
  · refine ⟨rootMeanSquare 32768 (vs.map (256 * ·.toInt)), fun f linear => ?_, fun f linear => ?_⟩
    · have read : wideSamples? f (vs.map (encode8 f.signed)) = some (vs.map (256 * ·.toInt)) := by
        rw [wideSamples?, samples?_encode8 linear, Option.map_some, List.map_map, stepSize,
          if_pos linear.sampleBits]
        rfl
      exact power?_wide read (by simpa using filled)
    · have read := @samples?_encode16 f linear (vs.map widened) [] (Nat.zero_le 1)
      rw [List.append_nil, List.map_map] at read
      have same : vs.map ((·.toInt) ∘ widened) = vs.map (256 * ·.toInt) :=
        List.map_congr_left fun v _ => toInt_widened v
      rw [same] at read
      rw [power?_samples read (by simpa using filled), fullScale_linear16 linear]
  · rw [← Option.not_isSome_iff_eq_none, power?_isSome_iff, not_and_or, not_and_or, not_or, not_le]
  · have inScale := samples?_inScale read s member
    obtain ⟨k, few, full⟩ := fullScale_eq f
    rw [full] at inScale ⊢
    have high : (s : ℝ) < (2 ^ k : ℕ) := by exact_mod_cast inScale.2
    exact ⟨(abs_le.mp (abs_div_full_le inScale)).1, (div_lt_one (by positivity)).mpr high,
      normalize_exactly few inScale⟩

/-- Half of full scale, in every layout that there is. -/
theorem layouts_agree_half : ∃ rms,
    power? (.linear16 8000.0 1) [0, 64] = some rms ∧
    power? { AudioFormat.linear16 8000.0 1 with order := .big } [64, 0] = some rms ∧
    power? { AudioFormat.linear16 8000.0 2 with signed := false } [0, 192, 7] = some rms ∧
    power? { AudioFormat.linear16 0.0 1 with order := .big, signed := false } [192, 0] = some rms ∧
    power? { AudioFormat.linear16 8000.0 1 with sampleBits := 8 } [64] = some rms ∧
    power? { AudioFormat.linear16 8000.0 1 with sampleBits := 8, signed := false } [192] =
      some rms := by
  obtain ⟨rms, same⟩ := layouts_agree.1 [16384] (by decide)
  obtain ⟨rms', narrow, wide⟩ := layouts_agree.2.1 [64] (by decide)
  have first := same (.linear16 8000.0 1) ⟨rfl, rfl⟩ none
  have again := wide (.linear16 8000.0 1) ⟨rfl, rfl⟩
  obtain rfl : rms = rms' := Option.some.inj (first.symm.trans again)
  exact ⟨rms, first, same { AudioFormat.linear16 8000.0 1 with order := .big } ⟨rfl, rfl⟩ none,
    same { AudioFormat.linear16 8000.0 2 with signed := false } ⟨rfl, rfl⟩ (some 7),
    same { AudioFormat.linear16 0.0 1 with order := .big, signed := false } ⟨rfl, rfl⟩ none,
    narrow { AudioFormat.linear16 8000.0 1 with sampleBits := 8 } ⟨rfl, rfl⟩,
    narrow { AudioFormat.linear16 8000.0 1 with sampleBits := 8, signed := false } ⟨rfl, rfl⟩⟩

end Pcm

end Metering
