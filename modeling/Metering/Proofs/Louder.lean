import Metering.Proofs.Layouts
import Metering.Proofs.Nearing
import Metering.Proofs.Ranging
/-!
Louder signals never measure lower. Every step from the samples of a frame to the level that is
shown keeps the order of two signals, and no step leaves the range of the finite doubles: an energy
grows until one is lost in rounding, and then it grows no more.
-/

namespace Metering

open Binary64

/-! ### Energies -/

namespace Binary64

/-- An energy, or anything up to the greatest that a sum of energies gets to. -/
structure Moderate (x : Float) : Prop where
  finite : x.isFinite = true
  nonneg : 0 ≤ real x
  le : real x ≤ 2 ^ 54

/-- One is lost in a sum as great as this. -/
theorem rounded_saturated : rounded (2 ^ 54 + 1) = 2 ^ 54 := by
  have log : Int.log 2 ((2 : ℝ) ^ 54 + 1) = 54 := by
    have low : 54 ≤ Int.log 2 ((2 : ℝ) ^ 54 + 1) :=
      (Int.zpow_le_iff_le_log (by decide) (by positivity)).mp (by norm_num)
    have high : Int.log 2 ((2 : ℝ) ^ 54 + 1) < 55 :=
      (Int.lt_zpow_iff_log_lt (by decide) (by positivity)).mp (by norm_num)
    omega
  have floor : ⌊((2 : ℝ) ^ 54 + 1) / 2 ^ (2 : ℤ)⌋ = 2 ^ 52 := by
    rw [Int.floor_eq_iff]
    norm_num
  have fract : Int.fract (((2 : ℝ) ^ 54 + 1) / 2 ^ (2 : ℤ)) < 1 / 2 := by
    rw [Int.fract, floor]
    norm_num
  have place : place ((2 : ℝ) ^ 54 + 1) = 2 := by
    rw [place, log]
    norm_num
  rw [rounded_of_pos (by positivity), roundedMagnitude, place, nearestEven, if_pos fract, floor]
  norm_num

theorem Nears.moderate {z : Float} {r : ℝ} (h : Nears z r) (nonneg : 0 ≤ r) (le : r ≤ 2 ^ 54 + 1) :
    Moderate z := by
  have low := rounded_nonneg nonneg
  have high := rounded_mono le
  rw [rounded_saturated] at high
  have within : |rounded r| ≤ 2 ^ 64 := by
    rw [abs_of_nonneg low]
    exact high.trans (by norm_num)
  have same := h.real_eq_rounded within
  exact ⟨h.finite within, same ▸ low, same ▸ high⟩

/-- One moderate double is at most another. -/
structure Rises (x y : Float) : Prop where
  first : Moderate x
  second : Moderate y
  le : x ≤ y

theorem Nears.rises {x y : Float} {r q : ℝ} (hx : Nears x r) (hy : Nears y q) (nonneg : 0 ≤ r)
    (le : r ≤ q) (bound : q ≤ 2 ^ 54 + 1) : Rises x y where
  first := hx.moderate nonneg (le.trans bound)
  second := hy.moderate (nonneg.trans le) bound
  le := hx.mono hy le

theorem Rises.sqrt {x y : Float} (h : Rises x y) : Rises x.sqrt y.sqrt := by
  have bound : √(real y) ≤ 2 ^ 54 := by
    rw [Real.sqrt_le_left (by positivity)]
    exact h.second.le.trans (by norm_num)
  exact (sqrt_nears h.first.finite h.first.nonneg).rises
    (sqrt_nears h.second.finite h.second.nonneg) (Real.sqrt_nonneg _)
    (Real.sqrt_le_sqrt (real_le h.le)) (by linarith)

theorem Rises.div {x y c : Float} (h : Rises x y) (number : c.isNaN = false)
    (one_le : 1 ≤ real c) : Rises (x / c) (y / c) := by
  obtain ⟨q, nonneg, le_one, nears⟩ := exists_factor number one_le
  have order := real_le h.le
  have first := h.first.nonneg
  refine (nears h.first.finite).rises (nears h.second.finite) (by positivity) (by gcongr) ?_
  calc real y * q ≤ real y * 1 := by gcongr; exact h.second.nonneg
    _ ≤ 2 ^ 54 + 1 := by linarith [h.second.le]

end Binary64

namespace Pcm

/-- A sample is at most as far from rest as another. -/
structure Nearer (s t : Int) : Prop where
  first : InScale 32768 s
  second : InScale 32768 t
  le : |s| ≤ |t|

variable {s t : Int}

/-- The squares of two samples are in the order of the samples, and not more than one. -/
theorem Nearer.square (h : Nearer s t) :
    Rises (normalize 32768 s * normalize 32768 s) (normalize 32768 t * normalize 32768 t) ∧
      real (normalize 32768 t * normalize 32768 t) ≤ 1 := by
  have quiet : Exactly (normalize 32768 s) (s / (32768 : ℕ)) :=
    @normalize_exactly 15 s le_rfl h.first
  have loud : Exactly (normalize 32768 t) (t / (32768 : ℕ)) :=
    @normalize_exactly 15 t le_rfl h.second
  have le : |(s / (32768 : ℕ) : ℝ)| ≤ |(t / (32768 : ℕ) : ℝ)| := by
    have : |(s : ℝ)| ≤ |(t : ℝ)| := by exact_mod_cast h.le
    rw [abs_div, abs_div]
    gcongr
  have unit := abs_div_full_le h.second
  have first := mul_nears quiet.finite quiet.finite
  have second := mul_nears loud.finite loud.finite
  rw [quiet.real_eq] at first
  rw [loud.real_eq] at second
  have squares := abs_le_iff_mul_self_le.mp le
  have bound := abs_le_one_iff_mul_self_le_one.mp unit
  exact ⟨first.rises second (mul_self_nonneg _) squares (by linarith), second.le_one bound⟩

/-- The energies of two signals stay in order with the next sample of each. -/
theorem Nearer.rises_add {x y : Float} (h : Nearer s t) (sums : Rises x y) :
    Rises (x + normalize 32768 s * normalize 32768 s)
      (y + normalize 32768 t * normalize 32768 t) := by
  obtain ⟨squares, bound⟩ := h.square
  have sum_le := real_le sums.le
  have square_le := real_le squares.le
  have nonneg := add_nonneg sums.first.nonneg squares.first.nonneg
  exact (add_nears sums.first.finite squares.first.finite).rises
    (add_nears sums.second.finite squares.second.finite) nonneg (add_le_add sum_le square_le)
    (add_le_add sums.second.le bound)

theorem rises_foldl {ss ts : List Int} (h : List.Forall₂ Nearer ss ts) {x y : Float}
    (sums : Rises x y) :
    Rises (ss.foldl (fun sum s => sum + normalize 32768 s * normalize 32768 s) x)
      (ts.foldl (fun sum t => sum + normalize 32768 t * normalize 32768 t) y) := by
  induction h generalizing x y with
  | nil => exact sums
  | cons nearer _ ih => exact ih (nearer.rises_add sums)

theorem rises_rootMeanSquare {ss ts : List Int} (h : List.Forall₂ Nearer ss ts)
    (filled : ss ≠ []) : Rises (rootMeanSquare 32768 ss) (rootMeanSquare 32768 ts) := by
  have silence : Moderate 0.0 := ⟨by rfl, real_zero.ge, real_zero.le.trans (by positivity)⟩
  have start : Rises 0.0 0.0 := ⟨silence, silence, (le_iff (by rfl) (by rfl)).mpr le_rfl⟩
  have count := ofNat_nears ss.length
  have one_le : (1 : ℝ) ≤ ss.length := by exact_mod_cast List.length_pos_iff.mpr filled
  have energies : Rises (energy 32768 ss) (energy 32768 ts) := rises_foldl h start
  have quotients := energies.div count.number (count.one_le one_le)
  have roots := quotients.sqrt
  unfold rootMeanSquare
  rw [← h.length_eq]
  exact roots

/-- Two frames of as many samples, those of the first being at most as far from rest as those of the
second, whatever the layouts are. -/
def Quieter (a b : List UInt8 × AudioFormat) : Prop :=
  Option.Rel (List.Forall₂ fun s t => |s| ≤ |t|) (wideSamples? a.2 a.1) (wideSamples? b.2 b.1)

theorem nearer_of_inScale {ss ts : List Int} (first : ∀ s ∈ ss, InScale 32768 s)
    (second : ∀ t ∈ ts, InScale 32768 t) (h : List.Forall₂ (fun s t => |s| ≤ |t|) ss ts) :
    List.Forall₂ Nearer ss ts := by
  induction h with
  | nil => exact .nil
  | cons le _ ih =>
    rw [List.forall_mem_cons] at first second
    exact .cons ⟨first.1, second.1, le⟩ (ih first.2 second.2)

theorem Quieter.rises {a b : List UInt8 × AudioFormat} (h : Quieter a b) :
    Option.Rel Rises (power? a.2 a.1) (power? b.2 b.1) := by
  unfold Quieter at h
  cases quiet : wideSamples? a.2 a.1 with
  | none =>
    rw [quiet] at h
    cases loud : wideSamples? b.2 b.1 with
    | none =>
      rw [power?_eq_wide, power?_eq_wide, quiet, loud]
      exact .none
    | some ts =>
      rw [loud] at h
      cases h
  | some ss =>
    rw [quiet] at h
    cases loud : wideSamples? b.2 b.1 with
    | none =>
      rw [loud] at h
      cases h
    | some ts =>
      rw [loud] at h
      obtain ⟨order⟩ := h
      have nearer :=
        nearer_of_inScale (wideSamples?_inScale quiet) (wideSamples?_inScale loud) order
      cases nearer with
      | nil =>
        rw [power?_eq_wide, power?_eq_wide, quiet, loud]
        exact .none
      | cons s_t rest =>
        rw [power?_wide quiet (List.cons_ne_nil _ _), power?_wide loud (List.cons_ne_nil _ _)]
        exact .some (rises_rootMeanSquare (.cons s_t rest) (List.cons_ne_nil _ _))

end Pcm

/-! ### Levels -/

/-- The logarithm does not fall from one positive finite double to another. -/
def Level.Logarithmic (log10 : Float → Float) : Prop :=
  ∀ x y : Float, 0.0 < x → x ≤ y → y.isFinite = true → log10 x ≤ log10 y

namespace Level

variable {log10 : Float → Float}

theorem ofRmsBy_mono (mono : Logarithmic log10) {x y : Float} (h : Rises x y) :
    ofRmsBy log10 x ≤ ofRmsBy log10 y := by
  have nx := number_of_finite h.first.finite
  have ny := number_of_finite h.second.finite
  have silent {z : Float} (nz : z.isNaN = false) : z ≤ 0.0 ↔ real z ≤ 0 := by
    rw [le_iff nz (by rfl), real_zero]
  by_cases quiet : real x ≤ 0
  · have lowest : ofRmsBy log10 x = lowest := by
      rw [ofRmsBy, if_pos (by simp [(silent nx).mpr quiet])]
    rw [lowest]
    exact (onScale_ofRmsBy log10 y).1
  · have pos : 0 < real x := not_le.mp quiet
    have sounds {z : Float} (nz : z.isNaN = false) (finite : z.isFinite = true) (pos : 0 < real z) :
        ofRmsBy log10 z = nearest lowest highest (127.0 + 20.0 * log10 z) := by
      have audible : ¬z ≤ 0.0 := fun le => not_le.mpr pos ((silent nz).mp le)
      rw [ofRmsBy, if_neg (by simp [audible, finite])]
    rw [sounds nx h.first.finite pos, sounds ny h.second.finite (pos.trans_le (real_le h.le))]
    have above : (0.0 : Float) < x := by rwa [lt_iff (by rfl) nx, real_zero]
    have twenty : real 20.0 = 20 := by
      rw [real_of_unpack (m := 5 * 2 ^ 50) (e := -48) (by decide) (by rfl)]
      norm_num
    have scaled := mul_mono_right (x := 20.0) (by rfl) (by rw [twenty]; norm_num)
      (mono x y above h.le h.second.finite)
    exact nearest_mono (add_mono_right (x := 127.0) (by rfl) scaled) lowest highest

theorem animate_mono {l m level raised decrement : Int} (falls : 0 ≤ decrement) (last : l ≤ m)
    (le : level ≤ raised) :
    animate (some l) level decrement ≤ animate (some m) raised decrement := by
  unfold animate
  dsimp only
  split <;> split <;> omega

end Level

namespace EffectConfig

variable {log10 : Float → Float} {c : EffectConfig}

/-- What is shown of two levels is in their order if what was shown before is. -/
theorem Falls.next_mono (falls : c.Falls) {l m : Option Int} (last : Option.Rel (· ≤ ·) l m)
    {level raised : Int} (le : level ≤ raised) : c.next l level ≤ c.next m raised := by
  unfold EffectConfig.next
  split
  · next animate =>
    have falls := falls.resolve_left (by simp [animate])
    cases last with
    | none => exact le
    | some last => exact Level.animate_mono falls last le
  · exact le

end EffectConfig

/-- One calculator shows no more than another of the same configuration. -/
structure Calculator.Below (config : EffectConfig) (k l : Calculator) : Prop where
  first : k.config = config
  second : l.config = config
  last : Option.Rel (· ≤ ·) k.last l.last

/-- A calculator that shows no more than another goes on so if its frames are quieter. -/
theorem Calculator.Below.measureBy {config : EffectConfig} {k l : Calculator}
    (h : Below config k l) (falls : config.Falls) {log10 : Float → Float}
    (mono : Level.Logarithmic log10) {a b : List UInt8 × AudioFormat} (quieter : Pcm.Quieter a b) :
    Option.Rel (· ≤ ·) (k.measureBy log10 a.1 a.2).1 (l.measureBy log10 b.1 b.2).1 ∧
      Below config (k.measureBy log10 a.1 a.2).2 (l.measureBy log10 b.1 b.2).2 := by
  have powers := quieter.rises
  unfold Calculator.measureBy
  cases quiet : Pcm.power? a.2 a.1 with
  | none =>
    rw [quiet] at powers
    cases loud : Pcm.power? b.2 b.1 with
    | none => exact ⟨.none, h⟩
    | some y =>
      rw [loud] at powers
      cases powers
  | some x =>
    rw [quiet] at powers
    cases loud : Pcm.power? b.2 b.1 with
    | none =>
      rw [loud] at powers
      cases powers
    | some y =>
      rw [loud] at powers
      obtain ⟨rises⟩ := powers
      have shown : k.config.next k.last (Level.ofRmsBy log10 x) ≤
          l.config.next l.last (Level.ofRmsBy log10 y) := by
        rw [h.first, h.second]
        exact falls.next_mono h.last (Level.ofRmsBy_mono mono rises)
      exact ⟨.some shown, h.first, h.second, .some shown⟩

/-- What is kept between two states and follows from it carries over to what is given back in
two runs. -/
theorem outcomes_forall₂ {σ β γ : Type} {take : σ → β → γ × σ} (states : σ → σ → Prop)
    (inputs : β → β → Prop) (outputs : γ → γ → Prop)
    (keeps : ∀ {s t a b}, states s t → inputs a b →
      outputs (take s a).1 (take t b).1 ∧ states (take s a).2 (take t b).2)
    {s t : σ} (start : states s t) {as bs : List β} (h : List.Forall₂ inputs as bs) :
    List.Forall₂ outputs (outcomes take s as) (outcomes take t bs) := by
  induction h generalizing s t with
  | nil => exact .nil
  | cons first _ ih =>
    obtain ⟨now, next⟩ := keeps start first
    exact .cons now (ih next)

/-- Louder never measures lower. Of two lists of frames, each frame of the first having as many
samples as that of the second and none further from rest, the first has at every step a level that
is at most that of the second, or neither has one. So it is in every measurable layout and for
every configuration that lets levels fall only, whatever the logarithm is as long as it does not
fall. -/
theorem EffectConfig.louder_measures_higher {log10 : Float → Float}
    (mono : Level.Logarithmic log10) {c : EffectConfig} (falls : c.Falls)
    {quiet loud : List (List UInt8 × AudioFormat)} (h : List.Forall₂ Pcm.Quieter quiet loud) :
    List.Forall₂ (Option.Rel (· ≤ ·)) (c.measured log10 quiet) (c.measured log10 loud) :=
  outcomes_forall₂ (Calculator.Below c) Pcm.Quieter (Option.Rel (· ≤ ·))
    (fun below quieter => below.measureBy falls mono quieter) ⟨rfl, rfl, .none⟩ h

/-- The logarithms of one half and of one, and steps at the other numbers. -/
def Level.coarseLog10 (x : Float) : Float := if x < 1.0 then -0.3010299956639812 else 0.0

theorem Level.logarithmic_coarseLog10 : Logarithmic coarseLog10 := by
  intro x y _ le finite
  obtain ⟨nx, ny⟩ := numbers_of_le le
  have half : coarseLog10 0.5 ≤ coarseLog10 0.5 := by decide +kernel
  have steps : coarseLog10 0.5 ≤ coarseLog10 1.0 := by decide +kernel
  have one : coarseLog10 1.0 ≤ coarseLog10 1.0 := by decide +kernel
  have low {z : Float} (below : z < 1.0) : coarseLog10 z = coarseLog10 0.5 := by
    rw [coarseLog10, if_pos below]
    decide +kernel
  have high {z : Float} (above : ¬z < 1.0) : coarseLog10 z = coarseLog10 1.0 := by
    rw [coarseLog10, if_neg above]
    decide +kernel
  by_cases below : y < 1.0
  · have first : x < 1.0 :=
      (lt_iff nx (by rfl)).mpr ((real_le le).trans_lt ((lt_iff ny (by rfl)).mp below))
    rw [low first, low below]
    exact half
  · rw [high below]
    by_cases first : x < 1.0
    · rw [low first]
      exact steps
    · rw [high first]
      exact one

/-- Half of full scale and full scale, each with silence behind it. -/
theorem EffectConfig.louder_measures_higher_half :
    let quiet := [([0, 64], AudioFormat.linear16 8000.0 1), ([0, 0], .linear16 8000.0 1)]
    let loud := Pcm.crash.map (·, AudioFormat.linear16 8000.0 1)
    measured Level.coarseLog10 {} quiet = [some 121, some 113] ∧
    measured Level.coarseLog10 {} loud = [some 127, some 119] ∧
    List.Forall₂ Pcm.Quieter quiet loud ∧
    List.Forall₂ (Option.Rel (· ≤ ·)) (measured Level.coarseLog10 {} quiet)
      (measured Level.coarseLog10 {} loud) := by
  intro quiet loud
  have quieter : List.Forall₂ Pcm.Quieter quiet loud :=
    .cons (.some (.cons (by decide) .nil)) (.cons (.some (.cons (by decide) .nil)) .nil)
  exact ⟨by decide +kernel, by decide +kernel, quieter,
    louder_measures_higher Level.logarithmic_coarseLog10 (.inr (by decide)) quieter⟩

end Metering
