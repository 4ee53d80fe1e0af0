import Mathlib
/-!
Rounding, as the model of the doubles does it with digits, is rounding to the nearest real number
that there is a double for. From this it is monotone, and exact where there is room for the digits.
-/

namespace Metering.Binary64

/-! ### Real numbers -/

/-- The nearest integer, of two that are as near the even one. -/
noncomputable def nearestEven (x : ℝ) : ℤ :=
  if Int.fract x < 1 / 2 then ⌊x⌋
  else if 1 / 2 < Int.fract x then ⌊x⌋ + 1
  else ⌊x⌋ + ⌊x⌋ % 2

theorem floor_le_nearestEven (x : ℝ) : ⌊x⌋ ≤ nearestEven x := by
  unfold nearestEven
  split_ifs <;> omega

theorem nearestEven_le (x : ℝ) : nearestEven x ≤ ⌊x⌋ + 1 := by
  unfold nearestEven
  split_ifs <;> omega

theorem nearestEven_intCast (n : ℤ) : nearestEven n = n := by
  simp [nearestEven]

theorem nearestEven_mono : Monotone nearestEven := by
  intro x y le
  obtain lt | same : ⌊x⌋ < ⌊y⌋ ∨ ⌊x⌋ = ⌊y⌋ := (Int.floor_mono le).lt_or_eq
  · exact (nearestEven_le x).trans ((Int.add_one_le_of_lt lt).trans (floor_le_nearestEven y))
  · have fract : Int.fract x ≤ Int.fract y := by
      simp only [Int.fract, same]
      linarith
    unfold nearestEven
    rw [same]
    split_ifs <;> first | omega | linarith

theorem abs_nearestEven_sub_le (x : ℝ) : |nearestEven x - x| ≤ 1 / 2 := by
  have fract := Int.self_sub_floor x
  have nonneg := Int.fract_nonneg x
  have below := Int.fract_lt_one x
  have parity : (0 : ℤ) ≤ ⌊x⌋ % 2 ∧ ⌊x⌋ % 2 ≤ 1 := by omega
  have low : (0 : ℝ) ≤ (⌊x⌋ % 2 : ℤ) := by exact_mod_cast parity.1
  have high : ((⌊x⌋ % 2 : ℤ) : ℝ) ≤ 1 := by exact_mod_cast parity.2
  unfold nearestEven
  rw [abs_le]
  split_ifs <;> push_cast at low high ⊢ <;> constructor <;> linarith

/-- The exponent of the last digit that a double has room for. -/
noncomputable def place (x : ℝ) : ℤ := max (Int.log 2 x - 52) (-1074)

noncomputable def roundedMagnitude (x : ℝ) : ℝ := nearestEven (x / 2 ^ place x) * 2 ^ place x

/-- The nearest double, were there no greatest one. -/
noncomputable def rounded (x : ℝ) : ℝ :=
  if x < 0 then -roundedMagnitude (-x) else roundedMagnitude x

section Rounded
variable {x y : ℝ}

theorem place_mono (pos : 0 < x) (le : x ≤ y) : place x ≤ place y :=
  max_le_max_right _ (Int.sub_le_sub_right (Int.log_mono_right pos le) _)

/-- Below `2 ^ (53 + e)` there is room for all digits down to the exponent `e`. -/
theorem place_le {e : ℤ} (pos : 0 < x) (below : x < 2 ^ (53 + e)) (least : -1074 ≤ e) :
    place x ≤ e := by
  have log : Int.log 2 x < 53 + e :=
    (Int.lt_zpow_iff_log_lt (by decide) pos).mp (by exact_mod_cast below)
  unfold place
  omega

theorem div_place_lt (x : ℝ) : x / 2 ^ place x < 2 ^ (53 : ℕ) := by
  have below := Int.lt_zpow_succ_log_self (b := 2) (by decide) x
  have room : Int.log 2 x + 1 ≤ 53 + place x := by
    unfold place
    omega
  rw [div_lt_iff₀ (by positivity), ← zpow_natCast, ← zpow_add₀ (by norm_num)]
  exact_mod_cast below.trans_le (zpow_le_zpow_right₀ (by norm_num) room)

/-- Where digits have to be left out, all the room is used. -/
theorem le_div_place (pos : 0 < x) (full : -1074 < place x) :
    2 ^ (52 : ℕ) ≤ x / 2 ^ place x := by
  have above := Int.zpow_log_le_self (b := 2) (by decide) pos
  have room : 52 + place x ≤ Int.log 2 x := by
    unfold place at full ⊢
    omega
  rw [le_div_iff₀ (by positivity), ← zpow_natCast, ← zpow_add₀ (by norm_num)]
  exact_mod_cast (zpow_le_zpow_right₀ (by norm_num) room).trans above

theorem nearestEven_nonneg (nonneg : 0 ≤ x) : 0 ≤ nearestEven x :=
  (Int.floor_nonneg.mpr nonneg).trans (floor_le_nearestEven x)

theorem nearestEven_place_le (x : ℝ) : nearestEven (x / 2 ^ place x) ≤ 2 ^ 53 := by
  have top : nearestEven ((2 ^ 53 : ℤ) : ℝ) = 2 ^ 53 := nearestEven_intCast _
  rw [← top]
  apply nearestEven_mono
  exact_mod_cast (div_place_lt x).le

theorem le_nearestEven_place (pos : 0 < x) (full : -1074 < place x) :
    2 ^ 52 ≤ nearestEven (x / 2 ^ place x) := by
  have bottom : nearestEven ((2 ^ 52 : ℤ) : ℝ) = 2 ^ 52 := nearestEven_intCast _
  rw [← bottom]
  apply nearestEven_mono
  exact_mod_cast le_div_place pos full

theorem roundedMagnitude_nonneg (nonneg : 0 ≤ x) : 0 ≤ roundedMagnitude x := by
  have := nearestEven_nonneg (x := x / 2 ^ place x) (by positivity)
  unfold roundedMagnitude
  positivity

/-- A number in a higher binade is rounded to no less than any in a lower one. -/
theorem roundedMagnitude_mono (pos : 0 < x) (le : x ≤ y) :
    roundedMagnitude x ≤ roundedMagnitude y := by
  unfold roundedMagnitude
  obtain lt | same : place x < place y ∨ place x = place y := (place_mono pos le).lt_or_eq
  · have low : (nearestEven (x / 2 ^ place x) : ℝ) ≤ 2 ^ 53 := by
      exact_mod_cast nearestEven_place_le x
    have high : (2 ^ 52 : ℝ) ≤ nearestEven (y / 2 ^ place y) := by
      exact_mod_cast le_nearestEven_place (pos.trans_le le) ((le_max_right _ _).trans_lt lt)
    calc nearestEven (x / 2 ^ place x) * (2 : ℝ) ^ place x
        ≤ 2 ^ 53 * (2 : ℝ) ^ place x := by gcongr
      _ = 2 ^ 52 * (2 : ℝ) ^ (place x + 1) := by rw [zpow_add_one₀ (by norm_num)]; ring
      _ ≤ 2 ^ 52 * (2 : ℝ) ^ place y := by gcongr; norm_num; omega
      _ ≤ nearestEven (y / 2 ^ place y) * (2 : ℝ) ^ place y := by gcongr
  · rw [same]
    have scaled : x / 2 ^ place y ≤ y / 2 ^ place y := by gcongr
    have := nearestEven_mono scaled
    gcongr

theorem rounded_zero : rounded 0 = 0 := by simp [rounded, roundedMagnitude, nearestEven]

theorem rounded_neg (x : ℝ) : rounded (-x) = -rounded x := by
  obtain neg | rfl | pos := lt_trichotomy x 0
  · simp [rounded, neg, not_lt.mpr (neg_nonneg.mpr neg.le)]
  · simp [rounded_zero]
  · simp [rounded, pos, not_lt.mpr pos.le]

theorem rounded_of_pos (pos : 0 < x) : rounded x = roundedMagnitude x := if_neg (not_lt.mpr pos.le)

theorem rounded_nonneg (nonneg : 0 ≤ x) : 0 ≤ rounded x := by
  rw [rounded, if_neg (not_lt.mpr nonneg)]
  exact roundedMagnitude_nonneg nonneg

theorem rounded_mono : Monotone rounded := by
  -- Each side of zero is rounded apart from the other.
  have positive {x y : ℝ} (nonneg : 0 ≤ x) (le : x ≤ y) : rounded x ≤ rounded y := by
    obtain rfl | pos := nonneg.eq_or_lt
    · rw [rounded_zero]
      exact rounded_nonneg le
    · rw [rounded_of_pos pos, rounded_of_pos (pos.trans_le le)]
      exact roundedMagnitude_mono pos le
  have nonpos {x : ℝ} (h : x ≤ 0) : rounded x ≤ 0 := by
    have := rounded_nonneg (neg_nonneg.mpr h)
    rw [rounded_neg] at this
    linarith
  intro x y le
  obtain left | right := le_total 0 x
  · exact positive left le
  · obtain above | below := le_total 0 y
    · exact (nonpos right).trans (rounded_nonneg above)
    · have := positive (neg_nonneg.mpr below) (neg_le_neg le)
      rw [rounded_neg, rounded_neg] at this
      linarith

/-- Rounding moves a number by half of its last digit at most. -/
theorem abs_rounded_sub_le (nonneg : 0 ≤ x) : |rounded x - x| ≤ 2 ^ place x / 2 := by
  have digit : (0 : ℝ) < 2 ^ place x := by positivity
  have scaled : rounded x - x =
      (nearestEven (x / 2 ^ place x) - x / 2 ^ place x) * 2 ^ place x := by
    rw [rounded, if_neg (not_lt.mpr nonneg), roundedMagnitude, sub_mul,
      div_mul_cancel₀ _ digit.ne']
  calc |rounded x - x|
      = |nearestEven (x / 2 ^ place x) - x / 2 ^ place x| * 2 ^ place x := by
        rw [scaled, abs_mul, abs_of_pos digit]
    _ ≤ 1 / 2 * 2 ^ place x := by
        gcongr
        exact abs_nearestEven_sub_le _
    _ = 2 ^ place x / 2 := by ring

/-- What a double has room for is not rounded. -/
theorem rounded_exact {m : ℕ} {e : ℤ} (hm : m < 2 ^ 53) (he : -1074 ≤ e) :
    rounded (m * 2 ^ e) = m * 2 ^ e := by
  obtain rfl | some := m.eq_zero_or_pos
  · simp [rounded_zero]
  have pos : (0 : ℝ) < m * 2 ^ e := by positivity
  have below : (m : ℝ) * 2 ^ e < 2 ^ (53 + e) := by
    rw [zpow_add₀ (by norm_num)]
    gcongr
    exact_mod_cast hm
  obtain ⟨k, hk⟩ := Int.le.dest (place_le pos below he)
  have whole : (m : ℝ) * 2 ^ e / 2 ^ place (m * 2 ^ e) = ((m * 2 ^ k : ℕ) : ℤ) := by
    rw [div_eq_iff (by positivity)]
    push_cast
    rw [mul_assoc, ← zpow_natCast, ← zpow_add₀ (by norm_num), add_comm (k : ℤ), hk]
  rw [rounded_of_pos pos, roundedMagnitude, whole, nearestEven_intCast, ← whole,
    div_mul_cancel₀ _ (by positivity)]

theorem rounded_exact_int {n : ℤ} {e : ℤ} (few : n.natAbs < 2 ^ 53) (he : -1074 ≤ e) :
    rounded (n * 2 ^ e) = n * 2 ^ e := by
  have same_size := rounded_exact few he
  obtain same | same := n.natAbs_eq
  · rw [same, Int.cast_natCast, same_size]
  · rw [same, Int.cast_neg, Int.cast_natCast, neg_mul, rounded_neg, same_size]

end Rounded

/-! ### Mantissas -/

open Float.Model Float.Model.UnpackedFloat

/-- A mantissa with its two bits stands for a number: which half of the way to the next mantissa
it is in, or whether it is at the beginning of one. -/
def Stands (m : ExtendedMantissa) (x : ℝ) : Prop :=
  match m.roundBit, m.stickyBit with
  | false, false => x = m.mantissa
  | false, true => m.mantissa < x ∧ x < m.mantissa + 1 / 2
  | true, false => x = m.mantissa + 1 / 2
  | true, true => m.mantissa + 1 / 2 < x ∧ x < m.mantissa + 1

namespace Stands
variable {m : ExtendedMantissa} {x : ℝ}

theorem bounds (h : Stands m x) : m.mantissa ≤ x ∧ x < m.mantissa + 1 := by
  obtain ⟨m, round, sticky⟩ := m
  cases round <;> cases sticky <;> simp only [Stands] at h <;> constructor <;> linarith

theorem floor (h : Stands m x) : ⌊x⌋ = m.mantissa :=
  Int.floor_eq_iff.mpr (by exact_mod_cast h.bounds)

theorem roundedMantissa (h : Stands m x) : (m.roundedMantissa : ℤ) = nearestEven x := by
  have fract : Int.fract x = x - m.mantissa := by rw [Int.fract, h.floor, Int.cast_natCast]
  rw [nearestEven, fract, h.floor]
  obtain ⟨m, round, sticky⟩ := m
  cases round <;> cases sticky <;>
    simp only [Stands, ExtendedMantissa.roundedMantissa, ExtendedMantissa.accuracy,
      Accuracy.roundToNearestEven] at h ⊢
  · rw [if_pos (by linarith)]
  · rw [if_pos (by linarith)]
  · rw [if_neg (by linarith), if_neg (by linarith)]
    norm_cast
  · rw [if_neg (by linarith), if_pos (by linarith)]
    norm_cast

/-- Cutting off a binary digit leaves the mantissa of half the number. -/
theorem shiftRightOne (h : Stands m x) : Stands m.shiftRightOne (x / 2) := by
  obtain ⟨m, round, sticky⟩ := m
  have split : (m : ℝ) = 2 * (m / 2 : ℕ) + (m % 2 : ℕ) := by
    exact_mod_cast (Nat.div_add_mod m 2).symm
  have bits : (0 != 0) = false ∧ (1 != 0) = true := ⟨rfl, rfl⟩
  obtain even | odd := Nat.mod_two_eq_zero_or_one m
  · rw [even, Nat.cast_zero] at split
    cases round <;> cases sticky <;>
      simp only [Stands, ExtendedMantissa.shiftRightOne, even, bits, Bool.or_true, Bool.or_false]
        at h ⊢
    · linarith
    · constructor <;> linarith
    · constructor <;> linarith
    · constructor <;> linarith
  · rw [odd, Nat.cast_one] at split
    cases round <;> cases sticky <;>
      simp only [Stands, ExtendedMantissa.shiftRightOne, odd, bits, Bool.or_true, Bool.or_false]
        at h ⊢
    · linarith
    · constructor <;> linarith
    · constructor <;> linarith
    · constructor <;> linarith

theorem shiftRight (h : Stands m x) (k : ℕ) : Stands (m >>> k) (x / 2 ^ k) := by
  induction k with
  | zero =>
    rw [pow_zero, div_one]
    exact h
  | succ k ih =>
    rw [pow_succ, ← div_div]
    exact ih.shiftRightOne

end Stands

/-! ### Numbers -/

def signed : Sign → ℝ → ℝ
  | .negative, x => -x
  | .positive, x => x

theorem rounded_signed (s : Sign) (x : ℝ) : rounded (signed s x) = signed s (rounded x) := by
  cases s with
  | negative => exact rounded_neg x
  | positive => rfl

/-- What an infinity counts as. Every finite double is nearer to zero. -/
noncomputable def limit : ℝ := 2 ^ 1024

theorem limit_pos : 0 < limit := by
  unfold limit
  positivity

theorem limit_eq (e : ℤ) (k : ℕ) (sum : k + e = 1024) : limit = 2 ^ k * 2 ^ e := by
  rw [limit, ← zpow_natCast, ← zpow_natCast, ← zpow_add₀ (by norm_num), sum]
  norm_num

noncomputable def value : UnpackedFloat → ℝ
  | .notANumber => 0
  | .infinity s => signed s limit
  | .zero _ => 0
  | .finite s m e _ => signed s (m * 2 ^ e)

/-- A mantissa of 53 digits, or of fewer with the least exponent. -/
structure Fits (m : ℕ) (e : ℤ) : Prop where
  digits : m < 2 ^ 53
  least : -1074 ≤ e
  full : 2 ^ 52 ≤ m ∨ e = -1074

/-- The digits of the number are where the format has them. -/
def Canonical : UnpackedFloat → Prop
  | .finite _ m e _ => Fits m e
  | _ => True

/-- A finite number that a real one was rounded to. -/
structure Rounds (u : UnpackedFloat) (x : ℝ) : Prop where
  canonical : Canonical u
  finite : u.isFinite = true
  value_eq : value u = rounded x

theorem targetExponent_eq (e : ℤ) (m : ℕ) :
    Format.targetExponent .binary64 (totalExponent m e) = max (m.log2 + e - 52) (-1074) := by
  have target : Format.targetExponent .binary64 (totalExponent m e) =
      max ((m.log2 : ℤ) + 1 + e - 53) (-1074) := rfl
  rw [target]
  omega

theorem shiftToTargetExponent_eq {m : ℕ} {e t : ℤ} (a : Accuracy)
    (target : Format.targetExponent .binary64 (totalExponent m e) = t) :
    shiftToTargetExponent .binary64 m e a =
      (ExtendedMantissa.ofMantissaAndAccuracy m a >>> (t - e).toNat, e + (t - e).toNat) := by
  rw [← target]
  rfl

/-- The format has the last digit where it is needed. -/
theorem targetExponent_eq_place {m : ℕ} {e : ℤ} {x : ℝ} (pos : 0 < x) (low : m * 2 ^ e ≤ x)
    (high : x < (m + 1) * 2 ^ e)
    (fits : e ≤ Format.targetExponent .binary64 (totalExponent m e)) :
    Format.targetExponent .binary64 (totalExponent m e) = place x := by
  rw [targetExponent_eq] at fits ⊢
  unfold place
  -- The first digit of the mantissa is that of `x`. Without a mantissa `x` is below the last digit
  -- of the format, which is then the place on both sides.
  obtain rfl | some := m.eq_zero_or_pos
  · have small : x < ((2 : ℕ) : ℝ) ^ e := by simpa using high
    have log := (Int.lt_zpow_iff_log_lt (by decide) pos).mp small
    have zero : Nat.log2 0 = 0 := Nat.log2_zero
    omega
  · have lower : ((2 : ℕ) : ℝ) ^ (m.log2 + e) ≤ x := by
      calc ((2 : ℕ) : ℝ) ^ (m.log2 + e) = (2 ^ m.log2 : ℕ) * 2 ^ e := by
            push_cast
            rw [zpow_add₀ (by norm_num), zpow_natCast]
        _ ≤ m * 2 ^ e := by
            gcongr
            exact Nat.log2_self_le some.ne'
        _ ≤ x := low
    have upper : x < ((2 : ℕ) : ℝ) ^ (m.log2 + e + 1) := by
      calc x < (m + 1 : ℕ) * 2 ^ e := by exact_mod_cast high
        _ ≤ (2 ^ (m.log2 + 1) : ℕ) * 2 ^ e := by
            gcongr
            exact Nat.lt_log2_self
        _ = ((2 : ℕ) : ℝ) ^ (m.log2 + e + 1) := by
            push_cast
            rw [add_right_comm, zpow_add₀ (by norm_num), ← zpow_natCast]
            norm_cast
    have := (Int.zpow_le_iff_le_log (by decide) pos).mp lower
    have := (Int.lt_zpow_iff_log_lt (by decide) pos).mp upper
    omega

/-- A mantissa that was rounded up to a digit more gives it up again. -/
theorem shiftToTargetExponent_fits {r : ℕ} {t : ℤ} (top : r ≤ 2 ^ 53) (least : -1074 ≤ t)
    (full : 2 ^ 52 ≤ r ∨ t = -1074) :
    Fits (shiftToTargetExponent .binary64 r t .exact).1.mantissa
      (shiftToTargetExponent .binary64 r t .exact).2 ∧
    ((shiftToTargetExponent .binary64 r t .exact).1.mantissa : ℝ) *
      2 ^ (shiftToTargetExponent .binary64 r t .exact).2 = r * 2 ^ t := by
  -- Only the power of two itself has a digit too many, and it is even.
  obtain room | rfl := top.lt_or_eq
  · have digits : r.log2 ≤ 52 := by
      by_cases zero : r = 0
      · simp [zero]
      · exact Nat.le_of_lt_succ ((Nat.log2_lt zero).mpr room)
    have still : (Format.targetExponent .binary64 (totalExponent r t) - t).toNat = 0 := by
      rw [targetExponent_eq]
      omega
    have same : (ExtendedMantissa.ofMantissaAndAccuracy r .exact >>> 0).mantissa = r := rfl
    rw [shiftToTargetExponent_eq .exact rfl, still]
    dsimp only
    rw [same, Nat.cast_zero, add_zero]
    exact ⟨⟨room, least, full⟩, rfl⟩
  · have target : Format.targetExponent .binary64 (totalExponent (2 ^ 53) t) = t + 1 := by
      rw [targetExponent_eq, Nat.log2_two_pow]
      omega
    have once : (t + 1 - t).toNat = 1 := by omega
    have half : (ExtendedMantissa.ofMantissaAndAccuracy (2 ^ 53) .exact >>> 1).mantissa = 2 ^ 52 :=
      rfl
    rw [shiftToTargetExponent_eq .exact target, once]
    dsimp only
    rw [half]
    refine ⟨⟨by norm_num, by omega, .inl le_rfl⟩, ?_⟩
    push_cast
    rw [zpow_add_one₀ (by norm_num)]
    ring

/-- The number with the given digits, if there are any. -/
def assembled (s : Sign) (m : ℕ) (e : ℤ) : UnpackedFloat :=
  if h : m = 0 then .zero s else .finite s m e (Nat.pos_of_ne_zero h)

theorem assembled_rounds (s : Sign) {m : ℕ} {e : ℤ} {x : ℝ} (fits : Fits m e)
    (same : m * 2 ^ e = rounded x) : Rounds (assembled s m e) (signed s x) := by
  unfold assembled
  split
  · next zero =>
    rw [zero, Nat.cast_zero, zero_mul] at same
    refine ⟨trivial, rfl, ?_⟩
    rw [rounded_signed, ← same]
    cases s <;> simp [value, signed]
  · refine ⟨fits, rfl, ?_⟩
    rw [rounded_signed, ← same]
    rfl

/-- The mantissa is cut off at the last digit that the format has. -/
theorem shiftToTargetExponent_stands {m : ℕ} {e : ℤ} {a : Accuracy} {x : ℝ} (pos : 0 < x)
    (stands : Stands (ExtendedMantissa.ofMantissaAndAccuracy m a) (x / 2 ^ e))
    (fits : e ≤ Format.targetExponent .binary64 (totalExponent m e)) :
    Stands (shiftToTargetExponent .binary64 m e a).1 (x / 2 ^ place x) ∧
      (shiftToTargetExponent .binary64 m e a).2 = place x := by
  have mantissa : (ExtendedMantissa.ofMantissaAndAccuracy m a).mantissa = m := by
    obtain _ | (_ | _ | _) := a <;> rfl
  obtain ⟨low, high⟩ := stands.bounds
  rw [mantissa, le_div_iff₀ (by positivity)] at low
  rw [mantissa, div_lt_iff₀ (by positivity)] at high
  have target := targetExponent_eq_place pos low high fits
  rw [target] at fits
  have shift : e + (place x - e).toNat = place x := by omega
  have shifted := stands.shiftRight (place x - e).toNat
  rw [div_div, ← zpow_natCast, ← zpow_add₀ (by norm_num), shift] at shifted
  rw [shiftToTargetExponent_eq a target]
  exact ⟨shifted, shift⟩

/-- The rounding of the format is that of the real numbers. -/
theorem roundWithAccuracy_rounds (s : Sign) {m : ℕ} {e : ℤ} {a : Accuracy} {x : ℝ} (pos : 0 < x)
    (stands : Stands (ExtendedMantissa.ofMantissaAndAccuracy m a) (x / 2 ^ e))
    (fits : e ≤ Format.targetExponent .binary64 (totalExponent m e)) :
    Rounds (roundWithAccuracy .binary64 s m e a) (signed s x) := by
  obtain ⟨first, exponent⟩ := shiftToTargetExponent_stands pos stands fits
  have digits := first.roundedMantissa
  set r := (shiftToTargetExponent .binary64 m e a).1.roundedMantissa
  have top : r ≤ 2 ^ 53 := by
    have := nearestEven_place_le x
    omega
  have least : -1074 ≤ place x := le_max_right _ _
  have full : 2 ^ 52 ≤ r ∨ place x = -1074 := by
    obtain full | none := least.lt_or_eq
    · have := le_nearestEven_place pos full
      omega
    · exact .inr none.symm
  obtain ⟨fits, same⟩ := shiftToTargetExponent_fits top least full
  have result : (r : ℝ) * 2 ^ place x = rounded x := by
    rw [rounded_of_pos pos, roundedMagnitude, ← digits, Int.cast_natCast]
  have unfolded : roundWithAccuracy .binary64 s m e a =
      assembled s (shiftToTargetExponent .binary64 r (shiftToTargetExponent .binary64 m e a).2
        .exact).1.mantissa (shiftToTargetExponent .binary64 r
          (shiftToTargetExponent .binary64 m e a).2 .exact).2 := rfl
  rw [unfolded, exponent]
  exact assembled_rounds s fits (same.trans result)

end Metering.Binary64
