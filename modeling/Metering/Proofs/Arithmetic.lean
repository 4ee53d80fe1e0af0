import Metering.Proofs.Rounding
/-!
Sums, products, quotients and square roots of finite numbers are the exact ones, rounded once.
-/

namespace Metering.Binary64

open Float.Model Float.Model.UnpackedFloat

theorem le_targetExponent {m : ℕ} {e : ℤ} (full : -1074 < e → 2 ^ 52 ≤ m) :
    e ≤ Format.targetExponent .binary64 (totalExponent m e) := by
  rw [targetExponent_eq]
  by_cases small : -1074 < e
  · have some : m ≠ 0 := by
      have := full small
      omega
    have := (Nat.le_log2 some).mpr (full small)
    omega
  · omega

theorem stands_exact (m : ℕ) : Stands (ExtendedMantissa.ofMantissaAndAccuracy m .exact) m := by
  simp [Stands, ExtendedMantissa.ofMantissaAndAccuracy]

theorem stands_less {m : ℕ} {x : ℝ} (low : m < x) (high : x < m + 1 / 2) :
    Stands (ExtendedMantissa.ofMantissaAndAccuracy m (.inexact .lt)) x := ⟨low, high⟩

theorem stands_half {m : ℕ} {x : ℝ} (half : x = m + 1 / 2) :
    Stands (ExtendedMantissa.ofMantissaAndAccuracy m (.inexact .eq)) x := half

theorem stands_more {m : ℕ} {x : ℝ} (low : m + 1 / 2 < x) (high : x < m + 1) :
    Stands (ExtendedMantissa.ofMantissaAndAccuracy m (.inexact .gt)) x := ⟨low, high⟩

theorem log2_shiftLeft {m : ℕ} (some : 0 < m) (k : ℕ) : (m <<< k).log2 = m.log2 + k := by
  have shifted : m <<< k ≠ 0 := by simp [Nat.shiftLeft_eq, some.ne']
  rw [Nat.log2_eq_iff shifted, Nat.shiftLeft_eq, Nat.add_right_comm, Nat.pow_add, Nat.pow_add]
  exact ⟨Nat.mul_le_mul_right _ (Nat.log2_self_le some.ne'),
    Nat.mul_lt_mul_of_pos_right Nat.lt_log2_self (Nat.two_pow_pos k)⟩

theorem round_rounds (s : Sign) {m : ℕ} (some : 0 < m) (e : ℤ) :
    Rounds (UnpackedFloat.round .binary64 s m e) (signed s (m * 2 ^ e)) := by
  have total (k : ℕ) : totalExponent (m <<< k) (e - k) = totalExponent m e := by
    simp only [totalExponent, log2_shiftLeft some]
    push_cast
    ring
  unfold UnpackedFloat.round decreaseExponent
  dsimp only
  set k := (e - Format.targetExponent .binary64 (totalExponent m e)).toNat with hk
  apply roundWithAccuracy_rounds
  · positivity
  · have same : (m : ℝ) * 2 ^ e / 2 ^ (e - k) = (m <<< k : ℕ) := by
      rw [Nat.shiftLeft_eq, div_eq_iff (by positivity)]
      push_cast
      rw [mul_assoc, ← zpow_natCast, ← zpow_add₀ (by norm_num)]
      congr 2
      ring
    rw [same]
    exact stands_exact _
  · rw [total]
    omega

theorem normalize_rounds (n e : ℤ) (z : Sign) :
    Rounds (UnpackedFloat.normalize .binary64 n e z) (n * 2 ^ e) := by
  unfold UnpackedFloat.normalize
  split
  · next neg =>
    have neg := Int.compare_eq_lt.mp neg
    have size : (((-n).toNat : ℤ) : ℝ) = -n := by
      rw [Int.toNat_of_nonneg (by omega)]
      push_cast
      rfl
    have := round_rounds .negative (m := (-n).toNat) (by omega) e
    rw [Int.cast_natCast] at size
    rw [size] at this
    simpa [signed] using this
  · next zero =>
    obtain rfl := Int.compare_eq_eq.mp zero
    exact ⟨trivial, rfl, by simp [value, rounded_zero]⟩
  · next pos =>
    have pos := Int.compare_eq_gt.mp pos
    have size : ((n.toNat : ℤ) : ℝ) = n := by rw [Int.toNat_of_nonneg (by omega)]
    have := round_rounds .positive (m := n.toNat) (by omega) e
    rw [Int.cast_natCast] at size
    rw [size] at this
    exact this

section Operations
variable {u v : UnpackedFloat}

theorem signed_mul (s t : Sign) (x y : ℝ) : signed (s * t) (x * y) = signed s x * signed t y := by
  cases s <;> cases t
  · exact (neg_mul_neg x y).symm
  · exact (neg_mul x y).symm
  · exact (mul_neg x y).symm
  · rfl

theorem signed_div (s t : Sign) (x y : ℝ) : signed (s / t) (x / y) = signed s x / signed t y := by
  cases s <;> cases t
  · exact (neg_div_neg_eq x y).symm
  · exact (neg_div y x).symm
  · exact (div_neg x).symm
  · rfl

theorem signed_zero (s : Sign) : signed s 0 = 0 := by cases s <;> simp [signed]

/-- A number that the format has is rounded to itself. -/
theorem Canonical.rounds (canonical : Canonical u) (finite : u.isFinite = true) :
    Rounds u (value u) := by
  refine ⟨canonical, finite, ?_⟩
  cases u with
  | infinity s => cases finite
  | notANumber => cases finite
  | zero s => exact rounded_zero.symm
  | finite s m e _ => rw [value, rounded_signed, rounded_exact canonical.digits canonical.least]

theorem rounds_zero (s : Sign) : Rounds (.zero s) 0 := ⟨trivial, rfl, rounded_zero.symm⟩

theorem decreaseExponent_value (s : Sign) (m : ℕ) {e t : ℤ} (le : t ≤ e) :
    ((s.apply (decreaseExponent m e t).1 : ℤ) : ℝ) * 2 ^ t = signed s (m * 2 ^ e) := by
  have same : ((decreaseExponent m e t).1 : ℝ) * 2 ^ t = m * 2 ^ e := by
    rw [decreaseExponent, Nat.shiftLeft_eq]
    push_cast
    rw [mul_assoc, ← zpow_natCast, ← zpow_add₀ (by norm_num)]
    congr 2
    omega
  cases s <;> simp [Sign.apply, signed, same]

theorem add_rounds (hu : Canonical u) (hv : Canonical v) (fu : u.isFinite = true)
    (fv : v.isFinite = true) : Rounds (add .binary64 u v) (value u + value v) := by
  cases u with
  | infinity s => cases fu
  | notANumber => cases fu
  | zero s =>
    rw [value, zero_add]
    cases v with
    | infinity t => cases fv
    | notANumber => cases fv
    | zero t => cases s <;> cases t <;> exact rounds_zero _
    | finite t n f _ => exact hv.rounds fv
  | finite s m e _ =>
    cases v with
    | infinity t => cases fv
    | notANumber => cases fv
    | zero t =>
      rw [value, value, add_zero]
      exact hu.rounds fu
    | finite t n f _ =>
      have sum := normalize_rounds (s.apply (decreaseExponent m e (min e f)).1 +
        t.apply (decreaseExponent n f (min e f)).1) (min e f) .positive
      rw [Int.cast_add, add_mul, decreaseExponent_value s m (min_le_left e f),
        decreaseExponent_value t n (min_le_right e f)] at sum
      exact sum

theorem mul_rounds (hu : Canonical u) (hv : Canonical v) (fu : u.isFinite = true)
    (fv : v.isFinite = true) : Rounds (mul .binary64 u v) (value u * value v) := by
  cases u with
  | infinity s => cases fu
  | notANumber => cases fu
  | zero s =>
    rw [value, zero_mul]
    cases v with
    | infinity t => cases fv
    | notANumber => cases fv
    | zero t => exact rounds_zero _
    | finite t n f _ => exact rounds_zero _
  | finite s m e some =>
    cases v with
    | infinity t => cases fv
    | notANumber => cases fv
    | zero t =>
      have zero : value (.zero t) = 0 := rfl
      rw [zero, mul_zero]
      exact rounds_zero _
    | finite t n f some' =>
      have whole : (m : ℝ) * 2 ^ e * (n * 2 ^ f) / 2 ^ (e + f) = (m * n : ℕ) := by
        rw [zpow_add₀ (by norm_num)]
        push_cast
        field_simp
      rw [value, value, ← signed_mul]
      refine roundWithAccuracy_rounds _ (by positivity) (whole ▸ stands_exact _)
        (le_targetExponent fun large => ?_)
      -- Two numbers of the least exponent have a product that is far below it.
      obtain full | least := hu.full
      · exact full.trans (Nat.le_mul_of_pos_right m some')
      · obtain full | least' := hv.full
        · exact full.trans (Nat.le_mul_of_pos_left n some)
        · omega

/-- What is left of a division tells how the quotient is rounded. -/
theorem stands_fraction (n : ℕ) {d : ℕ} (pos : 0 < d) :
    Stands (ExtendedMantissa.ofMantissaAndAccuracy (n / d) (accuracyOfFraction (n % d) d))
      (n / d : ℝ) := by
  have split : (n : ℝ) = d * (n / d : ℕ) + (n % d : ℕ) := by
    exact_mod_cast (Nat.div_add_mod n d).symm
  have below : ((n % d : ℕ) : ℝ) < d := by exact_mod_cast Nat.mod_lt n pos
  have pos' : (0 : ℝ) < d := by exact_mod_cast pos
  unfold accuracyOfFraction
  split
  · next none =>
    rw [none, Nat.cast_zero, add_zero] at split
    rw [split, mul_div_cancel_left₀ _ pos'.ne']
    exact stands_exact _
  · next some =>
    have some' : (0 : ℝ) < (n % d : ℕ) := by exact_mod_cast Nat.pos_of_ne_zero some
    -- Twice the remainder against the divisor says on which side of the half the fraction is.
    obtain less | half | more := lt_trichotomy (2 * (n % d)) d
    · rw [Nat.compare_eq_lt.mpr less]
      have less : (2 : ℝ) * (n % d : ℕ) < d := by exact_mod_cast less
      refine stands_less ?_ ?_
      · rw [lt_div_iff₀ pos']
        linarith
      · rw [div_lt_iff₀ pos']
        linarith
    · rw [Nat.compare_eq_eq.mpr half]
      have half : (2 : ℝ) * (n % d : ℕ) = d := by exact_mod_cast half
      refine stands_half ?_
      rw [div_eq_iff pos'.ne']
      linarith
    · rw [Nat.compare_eq_gt.mpr more]
      have more : (d : ℝ) < 2 * (n % d : ℕ) := by exact_mod_cast more
      refine stands_more ?_ ?_
      · rw [lt_div_iff₀ pos']
        linarith
      · rw [div_lt_iff₀ pos']
        linarith

/-- A quotient is worked out to as many digits as there is room for. -/
theorem le_div_shiftLeft {m n : ℕ} {e f t : ℤ} (some : 0 < m) (some' : 0 < n) (le : t ≤ e - f)
    (room : t ≤ max (totalExponent m e - totalExponent n f - 53) (-1074)) (large : -1074 < t) :
    2 ^ 52 ≤ (m <<< (e - f - t).toNat) / n := by
  have far : n.log2 + 53 ≤ m.log2 + (e - f - t).toNat := by
    unfold totalExponent at room
    omega
  rw [Nat.le_div_iff_mul_le some', Nat.shiftLeft_eq]
  calc 2 ^ 52 * n ≤ 2 ^ 52 * 2 ^ (n.log2 + 1) := Nat.mul_le_mul_left _ Nat.lt_log2_self.le
    _ = 2 ^ (n.log2 + 53) := by rw [← Nat.pow_add]; congr 1; omega
    _ ≤ 2 ^ (m.log2 + (e - f - t).toNat) := Nat.pow_le_pow_right (by decide) far
    _ = 2 ^ m.log2 * 2 ^ (e - f - t).toNat := Nat.pow_add ..
    _ ≤ m * 2 ^ (e - f - t).toNat := Nat.mul_le_mul_right _ (Nat.log2_self_le some.ne')

theorem div_rounds (hu : Canonical u) (hv : Canonical v) (fu : u.isFinite = true)
    (fv : v.isFinite = true) (nonzero : value v ≠ 0) :
    Rounds (div .binary64 u v) (value u / value v) := by
  cases v with
  | infinity t => cases fv
  | notANumber => cases fv
  | zero t => exact absurd rfl nonzero
  | finite t n f some' =>
    cases u with
    | infinity s => cases fu
    | notANumber => cases fu
    | zero s =>
      have zero : value (.zero s) = 0 := rfl
      rw [zero, zero_div]
      exact rounds_zero _
    | finite s m e some =>
      rw [value, value, ← signed_div]
      let p := min (e - f) (max (totalExponent m e - totalExponent n f - 53) (-1074))
      have le : p ≤ e - f := min_le_left _ _
      have shifted : (m : ℝ) * 2 ^ e / (n * 2 ^ f) / 2 ^ p = (m <<< (e - f - p).toNat : ℕ) / n := by
        rw [Nat.shiftLeft_eq]
        push_cast
        rw [← zpow_natCast (2 : ℝ), Int.toNat_of_nonneg (by omega), zpow_sub₀ (by norm_num),
          zpow_sub₀ (by norm_num)]
        field_simp
      exact roundWithAccuracy_rounds (s / t) (e := p) (by positivity)
        (shifted ▸ stands_fraction _ some')
        (le_targetExponent (le_div_shiftLeft some some' le (min_le_right _ _)))

/-- What is left of a square root tells how it is rounded. Halfway between two roots there is no
square. -/
theorem stands_sqrt (n : ℕ) :
    Stands (ExtendedMantissa.ofMantissaAndAccuracy n.sqrt (if n - n.sqrt * n.sqrt = 0 then .exact
      else .inexact (if n - n.sqrt * n.sqrt ≤ n.sqrt then .lt else .gt))) (√n) := by
  have below := Nat.sqrt_le n
  have above := Nat.lt_succ_sqrt n
  set r := n.sqrt
  have split : (n : ℝ) = r * r + (n - r * r : ℕ) := by
    rw [Nat.cast_sub below]
    push_cast
    ring
  have nonneg : (0 : ℝ) ≤ r := r.cast_nonneg
  split_ifs with none half
  · rw [none, Nat.cast_zero, add_zero] at split
    rw [split, Real.sqrt_mul_self nonneg]
    exact stands_exact r
  · have some : (1 : ℝ) ≤ (n - r * r : ℕ) := by exact_mod_cast Nat.pos_of_ne_zero none
    have half : ((n - r * r : ℕ) : ℝ) ≤ r := by exact_mod_cast half
    refine stands_less (Real.lt_sqrt_of_sq_lt (by nlinarith)) ?_
    rw [Real.sqrt_lt' (by linarith)]
    nlinarith
  · have half : (r : ℝ) + 1 ≤ (n - r * r : ℕ) := by exact_mod_cast Nat.lt_of_not_le half
    have above : (n : ℝ) < (r + 1) * (r + 1) := by exact_mod_cast above
    refine stands_more (Real.lt_sqrt_of_sq_lt (by nlinarith)) ?_
    rw [Real.sqrt_lt' (by linarith)]
    nlinarith

/-- A square root is worked out to as many digits as there is room for. -/
theorem le_sqrt_shiftLeft {m : ℕ} {e t : ℤ} (some : 0 < m) (le : t ≤ e / 2)
    (room : t ≤ max ((totalExponent m e + 1) / 2 - 53) (-1074)) (large : -1074 < t) :
    2 ^ 52 ≤ (m <<< (e - 2 * t).toNat).sqrt := by
  have far : 104 ≤ m.log2 + (e - 2 * t).toNat := by
    unfold totalExponent at room
    omega
  rw [Nat.le_sqrt, Nat.shiftLeft_eq]
  calc 2 ^ 52 * 2 ^ 52 = 2 ^ 104 := by norm_num
    _ ≤ 2 ^ (m.log2 + (e - 2 * t).toNat) := Nat.pow_le_pow_right (by decide) far
    _ = 2 ^ m.log2 * 2 ^ (e - 2 * t).toNat := Nat.pow_add ..
    _ ≤ m * 2 ^ (e - 2 * t).toNat := Nat.mul_le_mul_right _ (Nat.log2_self_le some.ne')

theorem sqrt_rounds (fu : u.isFinite = true) (nonneg : 0 ≤ value u) :
    Rounds (sqrt .binary64 u) √(value u) := by
  cases u with
  | infinity s => cases fu
  | notANumber => cases fu
  | zero s =>
    have zero : value (.zero s) = 0 := rfl
    rw [zero, Real.sqrt_zero]
    exact rounds_zero s
  | finite s m e some =>
    cases s with
    | negative =>
      have neg : value (.finite .negative m e some) < 0 :=
        neg_neg_of_pos (mul_pos (by exact_mod_cast some) (by positivity))
      exact absurd nonneg (not_le.mpr neg)
    | positive =>
      let p := min (e / 2) (max ((totalExponent m e + 1) / 2 - 53) (-1074))
      have le : p ≤ e / 2 := min_le_left _ _
      have shifted : √((m : ℝ) * 2 ^ e) / 2 ^ p = √(m <<< (e - 2 * p).toNat : ℕ) := by
        have square : ((2 : ℝ) ^ p) = √((2 ^ p) * (2 ^ p)) :=
          (Real.sqrt_mul_self (by positivity)).symm
        rw [square, ← Real.sqrt_div' _ (by positivity), Nat.shiftLeft_eq]
        congr 1
        push_cast
        rw [← zpow_natCast (2 : ℝ), Int.toNat_of_nonneg (by omega), zpow_sub₀ (by norm_num),
          two_mul, zpow_add₀ (by norm_num)]
        field_simp
      have pos : 0 < √((m : ℝ) * 2 ^ e) := by positivity
      exact roundWithAccuracy_rounds .positive (e := p) pos (shifted ▸ stands_sqrt _)
        (le_targetExponent (le_sqrt_shiftLeft some le (min_le_right _ _)))

end Operations

end Metering.Binary64
