import Mathlib.Data.List.ReduceOption
import Mathlib.Data.Rat.Floor
import Mathlib.Order.Bounds.Image
import Metering.Proofs.Levels
/-!
Animated levels as an envelope. A calculator remembers one level only, yet what it reports is the
highest of all the levels measured so far, each of them lowered by the decrement for every frame
since.
-/

namespace Metering

/-- What is given back for things that are taken in one after the other. -/
def outcomes {σ β γ : Type} (take : σ → β → γ × σ) (s : σ) : List β → List γ
  | [] => []
  | b :: bs => (take s b).1 :: outcomes take (take s b).2 bs

/-- The level of a frame by itself, if it can be measured. -/
def Pcm.level? (data : List UInt8) (f : AudioFormat) : Option Int :=
  (power? f data).map Level.ofRms

namespace Level

/-- What is left at frame `k` of the levels up to there, if each sinks by `decrement` a frame. -/
def echoes (decrement : Int) (levels : List Int) (k : Nat) : Set Int :=
  {n | ∃ (j : Nat) (level : Int), j ≤ k ∧ levels[j]? = some level ∧
    n = level - ((k : Int) - j) * decrement}

section Echoes

variable {decrement level : Int} {levels : List Int} {k : Nat}

theorem echoes_zero (first : levels[0]? = some level) :
    echoes decrement levels 0 = {level} := by
  ext n
  constructor
  · rintro ⟨j, early, le, at_j, rfl⟩
    obtain rfl : j = 0 := by omega
    obtain rfl := Option.some.inj (at_j.symm.trans first)
    simp
  · rintro rfl
    exact ⟨0, n, Nat.le_refl 0, first, by simp⟩

/-- With the next frame everything sinks once, and the new level joins. -/
theorem echoes_succ (next : levels[k + 1]? = some level) :
    echoes decrement levels (k + 1) =
      insert level ((· - decrement) '' echoes decrement levels k) := by
  ext n
  constructor
  · rintro ⟨j, early, le, at_j, rfl⟩
    obtain last | before : j = k + 1 ∨ j ≤ k := by omega
    · subst last
      obtain rfl := Option.some.inj (at_j.symm.trans next)
      exact .inl (by simp)
    · refine .inr ⟨early - ((k : Int) - j) * decrement, ⟨j, early, before, at_j, rfl⟩, ?_⟩
      push_cast
      ring
  · rintro (rfl | ⟨_, ⟨j, early, le, at_j, rfl⟩, rfl⟩)
    · exact ⟨k + 1, n, Nat.le_refl _, next, by simp⟩
    · refine ⟨j, early, Nat.le_succ_of_le le, at_j, ?_⟩
      push_cast
      ring

/-- The highest sinks with the others, unless the new level is higher. -/
theorem isGreatest_echoes_succ {highest : Int} (h : IsGreatest (echoes decrement levels k) highest)
    (next : levels[k + 1]? = some level) :
    IsGreatest (echoes decrement levels (k + 1)) (max level (highest - decrement)) := by
  have sinks : Monotone fun n : Int => n - decrement := fun _ _ le => Int.sub_le_sub_right le _
  rw [echoes_succ next]
  exact (sinks.map_isGreatest h).insert level

end Echoes

/-- Levels shown for others as their envelope: at once up, and down by at most `decrement` a
frame. -/
structure Envelope (decrement : Int) (raws levels : List Int) : Prop where
  length : levels.length = raws.length
  peak : ∀ {k : Nat} {level : Int}, levels[k]? = some level →
    IsGreatest (echoes decrement raws k) level
  /-- A level is shown that is not below the one measured. -/
  covers : ∀ {k : Nat} {raw level : Int}, raws[k]? = some raw → levels[k]? = some level →
    raw ≤ level
  rises : ∀ {k : Nat} {raw last level : Int}, levels[k]? = some last →
    raws[k + 1]? = some raw → levels[k + 1]? = some level → last ≤ raw → level = raw
  falls : ∀ {k : Nat} {last level : Int}, levels[k]? = some last →
    levels[k + 1]? = some level → last - decrement ≤ level
  /-- If the same level is measured again and again, it is shown after as many frames as the way
  down takes. -/
  settles : 1 ≤ decrement → ∀ {k m : Nat} {last raw : Int}, levels[k]? = some last →
    (∀ i, 1 ≤ i → i ≤ m → raws[k + i]? = some raw) →
    max 1 ⌈((last - raw : Int) : ℚ) / decrement⌉ ≤ m → levels[k + m]? = some raw

end Level

namespace EffectConfig

variable {c : EffectConfig} {last : Option Int} {raws : List Int} {raw n : Int} {k m : Nat}

theorem shown_length (c : EffectConfig) (last : Option Int) (raws : List Int) :
    (c.shown last raws).length = raws.length := by
  induction raws generalizing last with
  | nil => rfl
  | cons raw raws ih => simp [shown, ih]

theorem measured_of_shown (shown : (c.shown last raws)[k]? = some n) :
    ∃ raw, raws[k]? = some raw := by
  obtain ⟨short, -⟩ := List.getElem?_eq_some_iff.mp shown
  rw [shown_length] at short
  exact ⟨raws[k], List.getElem?_eq_getElem short⟩

theorem shown_zero (first : raws[0]? = some raw) :
    (c.shown last raws)[0]? = some (c.next last raw) := by
  cases raws with
  | nil => simp at first
  | cons head raws =>
    obtain rfl : head = raw := by simpa using first
    simp [shown]

/-- Every level is shown as it comes after the one shown before. -/
theorem shown_succ (before : (c.shown last raws)[k]? = some n) (next : raws[k + 1]? = some raw) :
    (c.shown last raws)[k + 1]? = some (c.next (some n) raw) := by
  induction raws generalizing last k with
  | nil => simp at next
  | cons head raws ih =>
    rw [List.getElem?_cons_succ] at next
    simp only [shown, List.getElem?_cons_succ]
    cases k with
    | zero =>
      obtain rfl : c.next last head = n := by simpa [shown] using before
      exact shown_zero next
    | succ k =>
      rw [shown, List.getElem?_cons_succ] at before
      exact ih before next

theorem shown_still (still : c.animate = false) (last : Option Int) (raws : List Int) :
    c.shown last raws = raws := by
  induction raws generalizing last with
  | nil => rfl
  | cons raw raws ih => simp [shown, next, still, ih]

section Animated

variable (animate : c.animate = true)
include animate

theorem next_none (raw : Int) : c.next none raw = raw := by simp [next, animate, Level.animate]

variable (falls : 0 ≤ c.maxDecrement.toInt)
include falls

theorem next_some (n raw : Int) : c.next (some n) raw = max raw (n - c.maxDecrement.toInt) := by
  simp only [next, animate, if_true, Level.animate]
  split <;> omega

/-- A level is shown for each that is measured: the higher of it and what is left of the one
before. -/
theorem shown_next (before : (c.shown last raws)[k]? = some n) (next : raws[k + 1]? = some raw) :
    (c.shown last raws)[k + 1]? = some (max raw (n - c.maxDecrement.toInt)) := by
  rw [shown_succ before next, next_some animate falls]

theorem shown_peak (shown : (c.shown none raws)[k]? = some n) :
    IsGreatest (Level.echoes c.maxDecrement.toInt raws k) n := by
  induction k generalizing n with
  | zero =>
    obtain ⟨raw, first⟩ := measured_of_shown shown
    rw [shown_zero first, next_none animate] at shown
    obtain rfl := Option.some.inj shown
    rw [Level.echoes_zero first]
    exact isGreatest_singleton
  | succ k ih =>
    obtain ⟨raw, here⟩ := measured_of_shown shown
    obtain ⟨before, shown_before⟩ : ∃ before, (c.shown none raws)[k]? = some before := by
      obtain ⟨short, -⟩ := List.getElem?_eq_some_iff.mp shown
      exact ⟨_, List.getElem?_eq_getElem (Nat.lt_of_succ_lt short)⟩
    rw [shown_next animate falls shown_before here] at shown
    obtain rfl := Option.some.inj shown
    exact Level.isGreatest_echoes_succ (ih shown_before) here

/-- The way down to a level that is measured again and again. -/
theorem shown_stretch (before : (c.shown last raws)[k]? = some n) (some_frames : 1 ≤ m)
    (stretch : ∀ i, 1 ≤ i → i ≤ m → raws[k + i]? = some raw) :
    (c.shown last raws)[k + m]? = some (max raw (n - m * c.maxDecrement.toInt)) := by
  induction m, some_frames using Nat.le_induction with
  | base =>
    rw [shown_next animate falls before (stretch 1 (Nat.le_refl 1) (Nat.le_refl 1))]
    simp
  | succ m some_frames ih =>
    have shown := ih fun i from_one le => stretch i from_one (Nat.le_succ_of_le le)
    have next := shown_next animate falls shown (stretch (m + 1) (by omega) (Nat.le_refl _))
    rw [← Nat.add_assoc, next]
    congr 1
    push_cast
    rw [Int.add_mul, Int.one_mul]
    omega

/-- What is shown of some levels is their envelope. -/
theorem shown_envelope (raws : List Int) :
    Level.Envelope c.maxDecrement.toInt raws (c.shown none raws) where
  length := c.shown_length none raws
  peak := shown_peak animate falls
  covers {k raw level} measured shown := by
    refine (shown_peak animate falls shown).2 ⟨k, raw, Nat.le_refl k, measured, ?_⟩
    simp
  rises {k raw last level} before measured shown higher := by
    rw [shown_next animate falls before measured] at shown
    obtain rfl := Option.some.inj shown
    omega
  falls {k last level} before shown := by
    obtain ⟨raw, measured⟩ := measured_of_shown shown
    rw [shown_next animate falls before measured] at shown
    obtain rfl := Option.some.inj shown
    exact le_max_right _ _
  settles sinks {k m last raw} before stretch late := by
    obtain ⟨some_frames, down⟩ := max_le_iff.mp late
    have positive : (0 : ℚ) < (c.maxDecrement.toInt : ℚ) := by exact_mod_cast sinks
    have far : last - raw ≤ m * c.maxDecrement.toInt := by
      have := (div_le_iff₀ positive).mp (Int.ceil_le.mp down)
      exact_mod_cast this
    rw [shown_stretch animate falls before (by exact_mod_cast some_frames) stretch]
    congr 1
    omega

end Animated

end EffectConfig

namespace Calculator

/-- What a calculator reports about each of some frames, one after the other. -/
def measures (c : Calculator) (frames : List (List UInt8 × AudioFormat)) : List (Option Int) :=
  outcomes (fun c x => c.measure x.1 x.2) c frames

variable {c : Calculator} {data : List UInt8} {f : AudioFormat}

theorem measure_none (unmeasured : Pcm.level? data f = none) : c.measure data f = (none, c) := by
  have silent : Pcm.power? f data = none := by simpa [Pcm.level?] using unmeasured
  simp [measure, measureBy, silent]

theorem measure_some {raw : Int} (measured : Pcm.level? data f = some raw) :
    c.measure data f =
      (some (c.config.next c.last raw), { c with last := some (c.config.next c.last raw) }) := by
  obtain ⟨rms, power, rfl⟩ := Option.map_eq_some_iff.mp measured
  simp [measure, measureBy, power, Level.ofRms]

variable {rest : List (List UInt8 × AudioFormat)}

theorem measures_none (unmeasured : Pcm.level? data f = none) :
    c.measures ((data, f) :: rest) = none :: c.measures rest := by
  simp only [measures, outcomes, measure_none unmeasured]

theorem measures_some {raw : Int} (measured : Pcm.level? data f = some raw) :
    c.measures ((data, f) :: rest) = some (c.config.next c.last raw) ::
      ({ c with last := some (c.config.next c.last raw) } : Calculator).measures rest := by
  simp only [measures, outcomes, measure_some measured]

/-- Just the frames that can be measured are reported. -/
theorem measures_isSome (c : Calculator) (frames : List (List UInt8 × AudioFormat)) :
    (c.measures frames).map Option.isSome =
      frames.map fun x => (Pcm.level? x.1 x.2).isSome := by
  induction frames generalizing c with
  | nil => rfl
  | cons x rest ih =>
    obtain ⟨data, f⟩ := x
    cases level : Pcm.level? data f with
    | none => simp [measures_none level, ih, level]
    | some raw => simp [measures_some level, ih, level]

/-- The levels reported are those measured, shown one after the other. -/
theorem measures_levels (c : Calculator) (frames : List (List UInt8 × AudioFormat)) :
    (c.measures frames).reduceOption =
      c.config.shown c.last (frames.filterMap fun x => Pcm.level? x.1 x.2) := by
  induction frames generalizing c with
  | nil => rfl
  | cons x rest ih =>
    obtain ⟨data, f⟩ := x
    cases level : Pcm.level? data f with
    | none => simp [measures_none level, level, List.reduceOption_cons_of_none, ih]
    | some raw =>
      simp [measures_some level, level, List.reduceOption_cons_of_some, ih, EffectConfig.shown]

/-- A calculator that is new or was reset reports the frames that can be measured and no others,
which change nothing. If levels are animated with a decrement that is not negative, it reports the
envelope of the levels measured; if they are not animated, it reports them as they are. -/
theorem reports_envelope (fresh : c.last = none) (frames : List (List UInt8 × AudioFormat)) :
    (c.measures frames).map Option.isSome =
      frames.map (fun x => (Pcm.level? x.1 x.2).isSome) ∧
    (∀ (c' : Calculator) (data : List UInt8) (f : AudioFormat),
      Pcm.level? data f = none → c'.measure data f = (none, c')) ∧
    (c.config.animate = true → 0 ≤ c.config.maxDecrement.toInt →
      Level.Envelope c.config.maxDecrement.toInt
        (frames.filterMap fun x => Pcm.level? x.1 x.2) (c.measures frames).reduceOption) ∧
    (c.config.animate = false →
      (c.measures frames).reduceOption = frames.filterMap fun x => Pcm.level? x.1 x.2) := by
  refine ⟨c.measures_isSome frames, fun _ _ _ => measure_none, ?_, ?_⟩
  · intro animate falls
    rw [measures_levels, fresh]
    exact EffectConfig.shown_envelope animate falls _
  · intro still
    rw [measures_levels]
    exact EffectConfig.shown_still still _ _

/-- Silence, half a sample and silence again. -/
def hush : List (List UInt8 × AudioFormat) :=
  [([0, 0], .linear16 8000.0 1), ([0], .linear16 8000.0 1), ([0, 0], .linear16 8000.0 1)]

theorem reports_envelope_hush : ({ config := {} } : Calculator).last = none ∧
    ({ config := {} } : Calculator).measures hush = [some 0, none, some 0] ∧
    Level.Envelope 8 [0, 0] (({ config := {} } : Calculator).measures hush).reduceOption := by
  have raws : (hush.filterMap fun x => Pcm.level? x.1 x.2) = [0, 0] := by decide +kernel
  have envelope := (reports_envelope (c := { config := {} }) rfl hush).2.2.1 rfl (by decide)
  rw [raws] at envelope
  exact ⟨rfl, by decide +kernel, envelope⟩

end Calculator

end Metering
