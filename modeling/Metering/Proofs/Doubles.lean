import Metering.Proofs.Words
/-!
What the operations on doubles give, in terms of the real numbers that doubles are. Each gives the
double nearest to the exact result, so each is as monotone as the real operation is.
-/

namespace Metering.Binary64

open Float.Model Float.Model.UnpackedFloat

noncomputable def real (x : Float) : ℝ := value x.toModel.unpack

/-- The double nearest to a number. -/
structure Nears (z : Float) (x : ℝ) : Prop where
  number : z.isNaN = false
  real_eq : real z = clipped (rounded x)

section Doubles
variable {x y z : Float}

theorem stored (x : Float) : Stored x.toModel.unpack := stored_unpack x.toModel

theorem le_iff_compare :
    x ≤ y ↔ (x.toModel.unpack.compare y.toModel.unpack).any (·.isLE) = true :=
  decide_eq_true_iff

theorem le_iff (hx : x.isNaN = false) (hy : y.isNaN = false) : x ≤ y ↔ real x ≤ real y := by
  rw [le_iff_compare, compare_eq (stored x) (stored y) hx hy]
  change (cmp (real x) (real y)).isLE = true ↔ _
  obtain lt | same | gt := lt_trichotomy (real x) (real y)
  · rw [(cmp_eq_lt_iff _ _).mpr lt]
    exact iff_of_true rfl lt.le
  · rw [same, cmp_self_eq_eq]
    exact iff_of_true rfl le_rfl
  · rw [(cmp_eq_gt_iff _ _).mpr gt]
    exact iff_of_false Bool.false_ne_true (not_le.mpr gt)

theorem lt_iff (hx : x.isNaN = false) (hy : y.isNaN = false) : x < y ↔ real x < real y := by
  have compared : x < y ↔ (x.toModel.unpack.compare y.toModel.unpack == some .lt) = true :=
    decide_eq_true_iff
  rw [compared, compare_eq (stored x) (stored y) hx hy, beq_iff_eq, Option.some.injEq,
    cmp_eq_lt_iff]
  rfl

theorem numbers_of_le (le : x ≤ y) : x.isNaN = false ∧ y.isNaN = false := by
  rw [le_iff_compare] at le
  change x.toModel.unpack.isNaN = false ∧ y.toModel.unpack.isNaN = false
  generalize x.toModel.unpack = u at le ⊢
  generalize y.toModel.unpack = v at le ⊢
  cases u <;> cases v <;> first | exact ⟨rfl, rfl⟩ | cases le

theorem real_le (le : x ≤ y) : real x ≤ real y :=
  (le_iff (numbers_of_le le).1 (numbers_of_le le).2).mp le

theorem number_of_finite (h : x.isFinite = true) : x.isNaN = false := by
  change x.toModel.unpack.isFinite = true at h
  change x.toModel.unpack.isNaN = false
  cases hu : x.toModel.unpack <;> rw [hu] at h <;> first | rfl | cases h

/-- A double that is no number of the finite ones is an infinity. -/
theorem infinite (number : x.isNaN = false) (h : x.isFinite = false) :
    ∃ s, x.toModel.unpack = .infinity s := by
  change x.toModel.unpack.isFinite = false at h
  change x.toModel.unpack.isNaN = false at number
  cases hu : x.toModel.unpack with
  | infinity s => exact ⟨s, rfl⟩
  | notANumber => rw [hu] at number; cases number
  | zero s => rw [hu] at h; cases h
  | finite s m e pos => rw [hu] at h; cases h

theorem finite_of_abs_lt (number : x.isNaN = false) (h : |real x| < limit) :
    x.isFinite = true := by
  by_contra far
  obtain ⟨s, hs⟩ := infinite number (Bool.not_eq_true _ ▸ far)
  rw [real, hs, value, abs_signed s limit_pos.le] at h
  exact lt_irrefl _ h

theorem nears_pack {u : UnpackedFloat} {r : ℝ} (h : Rounds u r) :
    Nears (.ofModel (Float.Model.pack u)) r := by
  refine ⟨?_, ?_⟩
  · change (Float.Model.pack u).unpack.isNaN = false
    have finite := h.finite
    rw [unpack_pack h.canonical]
    cases u with
    | notANumber => cases finite
    | infinity s => cases finite
    | zero s => rfl
    | finite s m e pos =>
      rw [settled]
      split <;> rfl
  · rw [real, unpack_pack h.canonical, value_settled h.canonical, h.value_eq]

theorem add_nears (fx : x.isFinite = true) (fy : y.isFinite = true) :
    Nears (x + y) (real x + real y) :=
  nears_pack (add_rounds (stored x).canonical (stored y).canonical fx fy)

theorem mul_nears (fx : x.isFinite = true) (fy : y.isFinite = true) :
    Nears (x * y) (real x * real y) :=
  nears_pack (mul_rounds (stored x).canonical (stored y).canonical fx fy)

theorem div_nears (fx : x.isFinite = true) (fy : y.isFinite = true) (nonzero : real y ≠ 0) :
    Nears (x / y) (real x / real y) :=
  nears_pack (div_rounds (stored x).canonical (stored y).canonical fx fy nonzero)

/-- Two quotients that are one number, other than zero, are one double. -/
theorem div_eq_div {x' y' : Float} (fx : x.isFinite = true) (fy : y.isFinite = true)
    (hy : real y ≠ 0) (fx' : x'.isFinite = true) (fy' : y'.isFinite = true) (hy' : real y' ≠ 0)
    (same : real x / real y = real x' / real y') (nonzero : rounded (real x / real y) ≠ 0) :
    x / y = x' / y' := by
  have first := div_rounds (stored x).canonical (stored y).canonical fx fy hy
  have second := div_rounds (stored x').canonical (stored y').canonical fx' fy' hy'
  change Float.ofModel (Float.Model.pack _) = Float.ofModel (Float.Model.pack _)
  rw [first.unique (same ▸ second) nonzero]

theorem sqrt_nears (fx : x.isFinite = true) (nonneg : 0 ≤ real x) : Nears x.sqrt √(real x) :=
  nears_pack (sqrt_rounds fx nonneg)

theorem Nears.mono {r q : ℝ} (hx : Nears x r) (hy : Nears y q) (le : r ≤ q) : x ≤ y := by
  rw [le_iff hx.number hy.number, hx.real_eq, hy.real_eq]
  exact clipped_mono (rounded_mono le)

/-- A number that the doubles have is kept. -/
theorem Nears.exact {r : ℝ} (hx : Nears x r) (same : rounded r = r) (within : |r| ≤ limit) :
    real x = r := by
  rw [hx.real_eq, same, clipped_of_abs_le within]

end Doubles

/-! ### Infinities -/

section Infinities
variable {x y z : Float}

theorem abs_real_le (x : Float) : |real x| ≤ limit := (stored x).abs_value_le

theorem abs_real_lt (finite : x.isFinite = true) : |real x| < limit := by
  have room := stored x
  change x.toModel.unpack.isFinite = true at finite
  rw [real]
  cases hx : x.toModel.unpack with
  | notANumber | infinity s => rw [hx] at finite; cases finite
  | zero s =>
    rw [value, abs_zero]
    exact limit_pos
  | finite s m e pos =>
    rw [hx] at room
    rw [value, abs_signed s (by positivity)]
    exact room.magnitude_lt

/-- An operation that keeps infinities is monotone if it is so on finite doubles. -/
theorem mono_of_finite {f : Float → Float}
    (number : ∀ {y}, y.isFinite = true → (f y).isNaN = false)
    (keeps : ∀ {y s}, y.toModel.unpack = .infinity s → (f y).toModel.unpack = .infinity s)
    (mono : ∀ {y z}, y.isFinite = true → z.isFinite = true → y ≤ z → f y ≤ f z) (le : y ≤ z) :
    f y ≤ f z := by
  obtain ⟨hy, hz⟩ := numbers_of_le le
  have order := real_le le
  have pos := limit_pos
  have same {w : Float} (hw : w.isNaN = false) (far : w.isFinite = false) :
      (f w).isNaN = false ∧ real (f w) = real w := by
    obtain ⟨s, hs⟩ := infinite hw far
    change (f w).toModel.unpack.isNaN = false ∧ _
    rw [real, real, keeps hs, hs]
    exact ⟨rfl, rfl⟩
  have isNumber {w : Float} (hw : w.isNaN = false) : (f w).isNaN = false := by
    cases fw : w.isFinite with
    | true => exact number fw
    | false => exact (same hw fw).1
  have ends {w : Float} (hw : w.isNaN = false) (far : |real w| = limit) : real (f w) = real w := by
    refine (same hw ?_).2
    by_contra finite
    exact (abs_real_lt (Bool.not_eq_false _ ▸ finite)).ne far
  obtain ⟨ylow, yhigh⟩ := abs_le.mp (abs_real_le y)
  obtain ⟨zlow, zhigh⟩ := abs_le.mp (abs_real_le z)
  -- An infinite double on the left is the least of all if it is negative, and one on the right the
  -- greatest if it is positive. Otherwise both doubles lie between two finite bounds.
  by_cases low : real y = -limit
  · rw [le_iff (isNumber hy) (isNumber hz), ends hy (by rw [low, abs_neg, abs_of_pos pos]), low]
    exact (abs_le.mp (abs_real_le _)).1
  by_cases high : real z = limit
  · rw [le_iff (isNumber hy) (isNumber hz), ends hz (by rw [high, abs_of_pos pos]), high]
    exact (abs_le.mp (abs_real_le _)).2
  · have inner : -limit < real y := lt_of_le_of_ne ylow (Ne.symm low)
    have outer : real z < limit := lt_of_le_of_ne zhigh high
    exact mono (finite_of_abs_lt hy (abs_lt.mpr ⟨inner, order.trans_lt outer⟩))
      (finite_of_abs_lt hz (abs_lt.mpr ⟨inner.trans_le order, outer⟩)) le

theorem add_mono_right (fx : x.isFinite = true) (le : y ≤ z) : x + y ≤ x + z := by
  refine mono_of_finite (f := (x + ·)) (fun fy => (add_nears fx fy).number) (fun {y s} hs => ?_)
    (fun fy fz le => (add_nears fx fy).mono (add_nears fx fz) ?_) le
  · change (Float.Model.pack (add .binary64 x.toModel.unpack y.toModel.unpack)).unpack = _
    change x.toModel.unpack.isFinite = true at fx
    rw [hs]
    generalize x.toModel.unpack = u at fx
    have sum : add .binary64 u (.infinity s) = .infinity s := by
      cases u with
      | notANumber | infinity t => cases fx
      | zero t | finite t m e pos => rfl
    rw [sum]
    exact unpack_pack (u := .infinity s) trivial
  · have := real_le le
    linarith

theorem mul_mono_right (fx : x.isFinite = true) (pos : 0 < real x) (le : y ≤ z) :
    x * y ≤ x * z := by
  refine mono_of_finite (f := (x * ·)) (fun fy => (mul_nears fx fy).number) (fun {y s} hs => ?_)
    (fun fy fz le => (mul_nears fx fy).mono (mul_nears fx fz) ?_) le
  · change (Float.Model.pack (mul .binary64 x.toModel.unpack y.toModel.unpack)).unpack = _
    rw [real] at pos
    change x.toModel.unpack.isFinite = true at fx
    rw [hs]
    generalize x.toModel.unpack = u at fx pos
    have product : mul .binary64 u (.infinity s) = .infinity s := by
      cases u with
      | notANumber | infinity t => cases fx
      | zero t => exact absurd pos (lt_irrefl 0)
      | finite t m e some =>
        cases t with
        | negative =>
          have nonneg : 0 ≤ (m : ℝ) * 2 ^ e := by positivity
          exact absurd pos (not_lt.mpr (neg_nonpos.mpr nonneg))
        | positive => cases s <;> rfl
    rw [product]
    exact unpack_pack (u := .infinity s) trivial
  · have := real_le le
    gcongr

end Infinities

/-- To divide by a double from one up is to multiply by a factor, which is zero if the double is
infinite. -/
theorem exists_factor {c : Float} (number : c.isNaN = false) (one_le : 1 ≤ real c) :
    ∃ q : ℝ, 0 ≤ q ∧ q ≤ 1 ∧ ∀ {x : Float}, x.isFinite = true → Nears (x / c) (real x * q) := by
  cases fc : c.isFinite with
  | true =>
    refine ⟨(real c)⁻¹, by positivity, inv_le_one_of_one_le₀ one_le, fun fx => ?_⟩
    rw [← div_eq_mul_inv]
    exact div_nears fx fc (by positivity)
  | false =>
    obtain ⟨s, hs⟩ := infinite number fc
    refine ⟨0, le_rfl, zero_le_one, fun {x} fx => ?_⟩
    rw [mul_zero]
    refine nears_pack (u := div .binary64 x.toModel.unpack c.toModel.unpack) ?_
    rw [hs]
    change x.toModel.unpack.isFinite = true at fx
    cases hx : x.toModel.unpack with
    | notANumber | infinity t => rw [hx] at fx; cases fx
    | zero t | finite t m e pos => exact rounds_zero _

/-! ### Whole numbers -/

theorem lt_limit {x : ℝ} (h : x ≤ 2 ^ 64) : x < limit :=
  h.trans_lt (pow_lt_pow_right₀ (by norm_num) (by norm_num))

theorem abs_natCast_le {n : ℕ} (few : n ≤ 2 ^ 53) : |(n : ℝ)| ≤ 2 ^ 64 := by
  rw [Nat.abs_cast]
  exact_mod_cast few.trans (by norm_num)

theorem rounded_natCast {n : ℕ} (few : n ≤ 2 ^ 53) : rounded n = n := by
  obtain less | rfl := few.lt_or_eq
  · simpa using rounded_exact less (e := 0) (by norm_num)
  · -- The first number of 54 digits ends in a zero.
    have top := rounded_exact (m := 1) (e := 53) (by norm_num) (by norm_num)
    rw [Nat.cast_one, one_mul] at top
    exact_mod_cast top

/-- The whole number below is kept by rounding if the next one is further away than half of the last
digit. -/
theorem floor_rounded {x : ℝ} (nonneg : 0 ≤ x) (few : ⌊x⌋₊ ≤ 2 ^ 53)
    (far : x + 2 ^ place x / 2 < ⌊x⌋₊ + 1) : ⌊rounded x⌋₊ = ⌊x⌋₊ := by
  have low : (⌊x⌋₊ : ℝ) ≤ rounded x := by
    rw [← rounded_natCast few]
    exact rounded_mono (Nat.floor_le nonneg)
  have high := (abs_le.mp (abs_rounded_sub_le nonneg)).2
  rw [Nat.floor_eq_iff (rounded_nonneg nonneg)]
  constructor <;> linarith

theorem Nears.real_eq_rounded {z : Float} {r : ℝ} (h : Nears z r) (within : |rounded r| ≤ 2 ^ 64) :
    real z = rounded r := by
  rw [h.real_eq, clipped_of_abs_le (lt_limit within).le]

/-- What is rounded to a number of up to 64 digits is finite. -/
theorem Nears.finite {z : Float} {r : ℝ} (h : Nears z r) (within : |rounded r| ≤ 2 ^ 64) :
    z.isFinite = true := by
  apply finite_of_abs_lt h.number
  rw [h.real_eq_rounded within]
  exact lt_limit within

theorem unpack_neg (x : Float) : (-x).toModel.unpack = x.toModel.unpack.neg := by
  have flipped : (-x).toModel = Float.Model.pack x.toModel.unpack.neg := rfl
  rw [flipped, unpack_pack (stored x).neg.canonical, (stored x).neg.settled_eq]

theorem real_neg (x : Float) : real (-x) = -real x := by
  rw [real, unpack_neg, value_neg, real]

theorem isFinite_neg (x : Float) : (-x).isFinite = x.isFinite := by
  change (-x).toModel.unpack.isFinite = x.toModel.unpack.isFinite
  rw [unpack_neg]
  cases x.toModel.unpack <;> rfl

structure Exactly (x : Float) (r : ℝ) : Prop where
  finite : x.isFinite = true
  real_eq : real x = r

theorem Nears.exactly {z : Float} {r : ℝ} (h : Nears z r) (same : rounded r = r)
    (within : |r| ≤ 2 ^ 64) : Exactly z r :=
  ⟨h.finite (by rwa [same]), h.exact same (lt_limit within).le⟩

theorem Exactly.neg {x : Float} {r : ℝ} (h : Exactly x r) : Exactly (-x) (-r) := by
  refine ⟨?_, ?_⟩
  · rw [isFinite_neg, h.finite]
  · rw [real_neg, h.real_eq]

theorem real_of_unpack {x : Float} {m : ℕ} {e : ℤ} (pos : 0 < m)
    (h : x.toModel.unpack = .finite .positive m e pos) : real x = m * 2 ^ e := by
  rw [real, h]
  rfl

theorem real_zero : real 0.0 = 0 := by rfl

theorem real_one : real (Float.ofBits 0x3FF0000000000000) = 1 := by
  rw [real_of_unpack (m := 2 ^ 52) (e := -52) (by decide) (by rfl)]
  norm_num

theorem toFloat_nears (n : UInt64) : Nears n.toFloat n.toNat := by
  have whole : Rounds (UnpackedFloat.normalize .binary64 n.toNat 0 .positive) n.toNat := by
    simpa using normalize_rounds n.toNat 0 .positive
  exact nears_pack whole

theorem ofNat_nears_few {n : ℕ} (few : n < 2 ^ 53) : Nears (Float.ofNat n) n := by
  have split : Float.ofNat n = n.toUInt64.toFloat * Float.ofBits 0x3FF0000000000000 := by
    change Float.ofScientific n false 0 = _
    rw [Float.ofScientific, dif_pos ⟨few, by decide⟩]
    rfl
  have word : n.toUInt64.toNat = n := by
    rw [Nat.toUInt64_eq, UInt64.toNat_ofNat']
    omega
  have digits := toFloat_nears n.toUInt64
  rw [word] at digits
  have small := abs_natCast_le few.le
  have same := rounded_natCast few.le
  have product := mul_nears (digits.finite (by rwa [same])) (y := Float.ofBits 0x3FF0000000000000)
    (by rfl)
  rwa [digits.exact same (lt_limit small).le, real_one, mul_one, ← split] at product

theorem ofNat_nears_many {n : ℕ} (many : 2 ^ 53 ≤ n) : Nears (Float.ofNat n) n := by
  have split : Float.ofNat n = .ofModel (Float.Model.ofScientific n 0) := by
    change Float.ofScientific n false 0 = _
    rw [Float.ofScientific, dif_neg fun h => not_lt.mpr many h.1]
    rfl
  have bits : (2 : ℤ) ^ Format.exponentBits .binary64 = 2048 := rfl
  have some : 0 < n <<< 53 * 10 ^ 0 := by
    rw [Nat.shiftLeft_eq]
    omega
  have whole : (n : ℝ) / 2 ^ (-53 : ℤ) = (n <<< 53 * 10 ^ 0 : ℕ) := by
    rw [Nat.shiftLeft_eq]
    push_cast
    rw [zpow_neg, div_inv_eq_mul]
    norm_num
  have pos : (0 : ℝ) < n := by exact_mod_cast (by omega : 0 < n)
  have product : Rounds (roundWithAccuracy .binary64 .positive (n <<< 53 * 10 ^ 0) (-53) .exact)
      n := by
    refine roundWithAccuracy_rounds .positive pos (whole ▸ stands_exact _)
      (le_targetExponent fun _ => ?_)
    rw [Nat.shiftLeft_eq]
    omega
  rw [split]
  refine nears_pack ?_
  unfold UnpackedFloat.ofScientific
  rw [dif_neg (by omega), if_neg (by decide), if_neg (by omega), if_pos le_rfl]
  exact product

/-- A whole number is read as the double nearest to it. -/
theorem ofNat_nears (n : ℕ) : Nears (Float.ofNat n) n :=
  (lt_or_ge n (2 ^ 53)).elim ofNat_nears_few ofNat_nears_many

theorem ofNat_exactly {n : ℕ} (few : n ≤ 2 ^ 53) : Exactly (Float.ofNat n) n :=
  (ofNat_nears n).exactly (rounded_natCast few) (abs_natCast_le few)

theorem ofInt_exactly {n : ℤ} (few : n.natAbs ≤ 2 ^ 53) : Exactly (Float.ofInt n) n := by
  obtain n | n := n
  · exact_mod_cast ofNat_exactly few
  · have := (ofNat_exactly (n := n + 1) few).neg
    rw [Int.cast_negSucc]
    exact this

theorem clipped_rounded_one : clipped (rounded 1) = 1 := by
  have one := rounded_natCast (n := 1) (by norm_num)
  rw [Nat.cast_one] at one
  rw [one, clipped_of_abs_le]
  rw [abs_one]
  exact (lt_limit (by norm_num)).le

theorem Nears.le_one {z : Float} {r : ℝ} (h : Nears z r) (le : r ≤ 1) : real z ≤ 1 := by
  rw [h.real_eq, ← clipped_rounded_one]
  exact clipped_mono (rounded_mono le)

theorem Nears.one_le {z : Float} {r : ℝ} (h : Nears z r) (le : 1 ≤ r) : 1 ≤ real z := by
  rw [h.real_eq, ← clipped_rounded_one]
  exact clipped_mono (rounded_mono le)

end Metering.Binary64
