import Metering.Binary64
import Metering.Proofs.Doubles
/-!
The fields of a word as the number that it is, and with them rounding and cutting to whole numbers.
-/

namespace Metering.Binary64

open Float.Model Float.Model.UnpackedFloat

section Fields
variable (x : Float)

theorem fraction_eq : fraction x = (@unpackMantissa .binary64 x.toModel.toBits.toBitVec).toNat := by
  have field : (@unpackMantissa .binary64 x.toModel.toBits.toBitVec).toNat =
      x.toBits.toNat % 2 ^ 52 := by
    simp [unpackMantissa]
    rfl
  have mask : (0xfffffffffffff : UInt64).toNat = 2 ^ 52 - 1 := rfl
  rw [field, fraction, UInt64.toNat_and, mask, Nat.and_two_pow_sub_one_eq_mod]

theorem biasedExponent_eq :
    biasedExponent x = (@unpackExponent .binary64 x.toModel.toBits.toBitVec).toNat := by
  have field : (@unpackExponent .binary64 x.toModel.toBits.toBitVec).toNat =
      x.toBits.toNat >>> 52 % 2 ^ 11 := by
    simp [unpackExponent]
    rfl
  have mask : (0x7ff : UInt64).toNat = 2 ^ 11 - 1 := rfl
  rw [field, biasedExponent, UInt64.toNat_and, mask, Nat.and_two_pow_sub_one_eq_mod]
  rfl

/-- The sign of a double, which a zero has too. -/
def sign : Sign := if isNegative x then .negative else .positive

theorem sign_eq : sign x = Sign.ofBitVec (@unpackSign .binary64 x.toModel.toBits.toBitVec) := by
  have field : (@unpackSign .binary64 x.toModel.toBits.toBitVec).toNat =
      x.toBits.toNat >>> 63 % 2 := by
    simp [unpackSign]
    rfl
  have below : x.toBits.toNat >>> 63 < 2 := by
    have := x.toBits.toNat_lt
    omega
  have bit : isNegative x = true ↔ x.toBits.toNat >>> 63 = 1 := by
    rw [isNegative, beq_iff_eq, ← UInt64.toNat_inj]
    rfl
  have zero : @unpackSign .binary64 x.toModel.toBits.toBitVec = 0#1 ↔
      x.toBits.toNat >>> 63 = 0 := by
    rw [← BitVec.toNat_inj, field, Nat.mod_eq_of_lt below]
    rfl
  rw [sign, Sign.ofBitVec]
  by_cases negative : x.toBits.toNat >>> 63 = 1
  · rw [if_pos (bit.mpr negative), if_neg fun h => by
      have := zero.mp h
      omega]
  · rw [if_neg (mt bit.mp negative), if_pos (zero.mpr (by omega))]

variable {x}

/-- A double is read off its fields. -/
theorem real_eq_fields (number : x.isNaN = false) :
    real x = signed (sign x) (significand x * 2 ^ ((shift x : ℤ) - 1074)) := by
  have fields : x.toModel.unpack = ofFields (sign x) (biasedExponent x) (fraction x) := by
    rw [sign_eq, biasedExponent_eq, fraction_eq]
    exact unpack_eq _
  have assembled (s : Sign) (m : ℕ) (e : ℤ) : value (assembled s m e) = signed s (m * 2 ^ e) := by
    unfold assembled
    split
    · next zero => rw [zero, Nat.cast_zero, zero_mul, signed_zero, value]
    · rfl
  change x.toModel.unpack.isNaN = false at number
  unfold real significand shift leadingOne
  rw [fields] at number ⊢
  unfold ofFields at number ⊢
  by_cases greatest : biasedExponent x = 2047
  · have none : fraction x = 0 := by
      by_contra some
      rw [if_pos greatest, if_neg some] at number
      cases number
    rw [if_pos greatest, if_pos none, if_neg (by omega), none, greatest, value,
      limit_eq 972 52 (by norm_num)]
    norm_num
  · rw [if_neg greatest]
    split_ifs with least
    · rw [assembled, least]
      norm_num
    · have pos : 1 ≤ biasedExponent x := by omega
      rw [assembled, add_comm (fraction x)]
      congr 2
      congr 1
      omega

/-- The absolute value as a fraction. -/
theorem ratio_eq (number : x.isNaN = false) :
    0 < (ratio x).2 ∧ ((ratio x).1 : ℝ) / (ratio x).2 = |real x| := by
  rw [real_eq_fields number, abs_signed _ (by positivity)]
  unfold ratio
  split
  · next small =>
    have less : ((1074 - shift x : ℕ) : ℤ) = 1074 - shift x := by omega
    refine ⟨Nat.two_pow_pos _, ?_⟩
    change (significand x : ℝ) / (2 ^ (1074 - shift x) : ℕ) = _
    rw [← neg_sub, zpow_neg, ← less, zpow_natCast, div_eq_mul_inv, Nat.cast_pow, Nat.cast_two]
  · next large =>
    have more : ((shift x - 1074 : ℕ) : ℤ) = shift x - 1074 := by omega
    refine ⟨Nat.one_pos, ?_⟩
    change ((significand x * 2 ^ (shift x - 1074) : ℕ) : ℝ) / (1 : ℕ) = _
    rw [← more, zpow_natCast, Nat.cast_one, div_one, Nat.cast_mul, Nat.cast_pow, Nat.cast_two]

/-- The nearest integer, of two that are as near the one further from zero. -/
noncomputable def awayFromZero (x : ℝ) : ℤ := if x < 0 then -round (-x) else round x

theorem round_mono : Monotone (round : ℝ → ℤ) := by
  intro x y le
  rw [round_eq, round_eq]
  gcongr

theorem awayFromZero_mono : Monotone awayFromZero := by
  intro x y le
  unfold awayFromZero
  split_ifs with hx hy hy
  · exact neg_le_neg (round_mono (neg_le_neg le))
  · have above : round (0 : ℝ) ≤ round y := round_mono (not_lt.mp hy)
    have below : round (0 : ℝ) ≤ round (-x) := round_mono (by linarith)
    rw [round_zero] at above below
    omega
  · linarith
  · exact round_mono le

theorem clamp_mono (lo hi : ℤ) : Monotone (clamp lo hi) := fun _ _ le =>
  max_le_max_left _ (min_le_min_left _ le)

/-- The sign of a double is that of the number, but for a zero. -/
theorem withSign_isNegative (number : x.isNaN = false) {n : ℕ} (zero : real x = 0 → n = 0) :
    withSign (isNegative x) n = if real x < 0 then -(n : ℤ) else n := by
  have fields := real_eq_fields number
  have nonneg : 0 ≤ (significand x : ℝ) * 2 ^ ((shift x : ℤ) - 1074) := by positivity
  rw [sign] at fields
  rw [withSign]
  split_ifs at fields ⊢ with negative below below
  · rfl
  · -- A zero can be negative.
    rw [signed] at fields
    rw [zero (by linarith), Nat.cast_zero, neg_zero]
  · rw [signed] at fields
    linarith
  · rfl

theorem withSign_eq (number : x.isNaN = false) :
    withSign (isNegative x) ((2 * (ratio x).1 + (ratio x).2) / (2 * (ratio x).2)) =
      awayFromZero (real x) := by
  obtain ⟨pos, same⟩ := ratio_eq number
  have rounded : (((2 * (ratio x).1 + (ratio x).2) / (2 * (ratio x).2) : ℕ) : ℤ) =
      round |real x| := by
    rw [round_eq, ← same, ← Nat.floor_div_eq_div (K := ℝ),
      Int.natCast_floor_eq_floor (by positivity)]
    congr 1
    have : ((ratio x).2 : ℝ) ≠ 0 := by positivity
    push_cast
    field_simp
  have zero (none : real x = 0) : (2 * (ratio x).1 + (ratio x).2) / (2 * (ratio x).2) = 0 := by
    rw [none, abs_zero, round_zero] at rounded
    exact_mod_cast rounded
  rw [withSign_isNegative number zero, rounded, awayFromZero]
  split_ifs with below
  · rw [abs_of_neg below]
  · rw [abs_of_nonneg (not_lt.mp below)]

/-- The fraction of a double that is not negative is cut off. -/
theorem truncate_eq (number : x.isNaN = false) (nonneg : 0 ≤ real x) (lo hi : ℤ) :
    truncate lo hi x = clamp lo hi ⌊real x⌋₊ := by
  obtain ⟨pos, same⟩ := ratio_eq number
  have cut : (ratio x).1 / (ratio x).2 = ⌊real x⌋₊ := by
    rw [← abs_of_nonneg nonneg, ← same, Nat.floor_div_eq_div]
  have zero (none : real x = 0) : (ratio x).1 / (ratio x).2 = 0 := by
    rw [cut, none, Nat.floor_zero]
  rw [truncate, number, if_neg Bool.false_ne_true, withSign_isNegative number zero,
    if_neg (not_lt.mpr nonneg), cut]

end Fields

theorem nearest_eq {x : Float} (number : x.isNaN = false) (lo hi : ℤ) :
    nearest lo hi x = clamp lo hi (awayFromZero (real x)) := by
  rw [nearest, number, if_neg Bool.false_ne_true, ← withSign_eq number]

theorem nearest_mono {x y : Float} (le : x ≤ y) (lo hi : ℤ) :
    nearest lo hi x ≤ nearest lo hi y := by
  obtain ⟨hx, hy⟩ := numbers_of_le le
  rw [nearest_eq hx, nearest_eq hy]
  exact clamp_mono lo hi (awayFromZero_mono (real_le le))

end Metering.Binary64
