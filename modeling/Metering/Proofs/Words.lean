import Metering.Proofs.Arithmetic
/-!
Numbers in words. A number that is too far out for the exponents becomes an infinity, and every
other one is found in its word again. The order of the numbers is that of the real ones.
-/

namespace Metering.Binary64

open Float.Model Float.Model.UnpackedFloat

/-! ### Words -/

/-- The number that the fields of a word make. -/
def ofFields (s : Sign) (exponent mantissa : ℕ) : UnpackedFloat :=
  if exponent = 2047 then if mantissa = 0 then .infinity s else .notANumber
  else if exponent = 0 then assembled s mantissa (-1074)
  else assembled s (2 ^ 52 + mantissa) (exponent - 1075)

/-- A number that fields have room for. -/
def Stored : UnpackedFloat → Prop
  | .finite _ m e _ => Fits m e ∧ e ≤ 971
  | _ => True

/-- What is found in a word after a number was put there. -/
def settled : UnpackedFloat → UnpackedFloat
  | .finite s m e pos => if 971 < e then .infinity s else .finite s m e pos
  | u => u

section Words
variable {u : UnpackedFloat}

theorem Stored.canonical (h : Stored u) : Canonical u := by
  cases u with
  | finite => exact h.1
  | infinity | notANumber | zero => trivial

theorem Stored.settled_eq (h : Stored u) : settled u = u := by
  cases u with
  | notANumber | zero s | infinity s => rfl
  | finite s m e pos => exact if_neg (not_lt.mpr h.2)

theorem Canonical.stored_settled (canonical : Canonical u) : Stored (settled u) := by
  cases u with
  | notANumber | zero s | infinity s => trivial
  | finite s m e pos =>
    rw [settled]
    split
    · trivial
    · next near => exact ⟨canonical, not_lt.mp near⟩

theorem assembled_pos (s : Sign) {m : ℕ} (pos : 0 < m) (e : ℤ) :
    assembled s m e = .finite s m e pos :=
  dif_neg pos.ne'

theorem assembled_stored (s : Sign) {m : ℕ} {e : ℤ} (fits : Fits m e) (reach : e ≤ 971) :
    Stored (assembled s m e) := by
  unfold assembled
  split
  · trivial
  · exact ⟨fits, reach⟩

theorem ofFields_stored (s : Sign) {exponent mantissa : ℕ} (he : exponent < 2048)
    (hm : mantissa < 2 ^ 52) : Stored (ofFields s exponent mantissa) := by
  unfold ofFields
  split_ifs
  · trivial
  · trivial
  · exact assembled_stored s ⟨by omega, le_rfl, .inr rfl⟩ (by norm_num)
  · exact assembled_stored s ⟨by omega, by omega, .inl (by omega)⟩ (by omega)

theorem unpack_eq (w : BitVec 64) : UnpackedFloat.unpack .binary64 w =
    ofFields (Sign.ofBitVec (@unpackSign .binary64 w)) (@unpackExponent .binary64 w).toNat
      (@unpackMantissa .binary64 w).toNat := by
  have bias : (Format.exponentBias .binary64 : ℤ) + 52 = 1075 := rfl
  have implicit (mantissa : BitVec 52) : (1#1 ++ mantissa).toNat = 2 ^ 52 + mantissa.toNat := by
    rw [BitVec.toNat_append, ← Nat.shiftLeft_add_eq_or_of_lt mantissa.isLt]
    rfl
  have greatest (exponent : BitVec 11) : exponent = -1#11 ↔ exponent.toNat = 2047 := by
    rw [← BitVec.toNat_inj]
    rfl
  have least (exponent : BitVec 11) : exponent = 0#11 ↔ exponent.toNat = 0 := by
    rw [← BitVec.toNat_inj]
    rfl
  have none (mantissa : BitVec 52) : mantissa = 0#52 ↔ mantissa.toNat = 0 := by
    rw [← BitVec.toNat_inj]
    rfl
  unfold UnpackedFloat.unpack ofFields
  simp only [greatest, least, none]
  split_ifs with _ _ zero empty
  · rfl
  · rfl
  · rw [assembled, dif_pos empty]
  · rw [assembled, dif_neg empty]
    congr 1
    omega
  · rw [assembled, dif_neg (by omega)]
    congr 1
    exact implicit _

theorem unpackSign_packComponents (s : Sign) (exponent : BitVec 11) (mantissa : BitVec 52) :
    Sign.ofBitVec (unpackSign (packComponents .binary64 s exponent mantissa)) = s := by
  have sign : unpackSign (packComponents .binary64 s exponent mantissa) = s.toBitVec := by
    change (s.toBitVec ++ exponent ++ mantissa).extractLsb' 63 1 = s.toBitVec
    rw [BitVec.append_assoc]
    exact BitVec.extractLsb'_append_eq_left
  rw [sign]
  cases s <;> rfl

theorem unpack_packComponents (s : Sign) (exponent : BitVec 11) (mantissa : BitVec 52) :
    UnpackedFloat.unpack .binary64 (packComponents .binary64 s exponent mantissa) =
      ofFields s exponent.toNat mantissa.toNat := by
  rw [unpack_eq, unpackSign_packComponents]
  simp only [unpackExponent_packComponents, unpackMantissa_packComponents]

theorem pack_eq (s : Sign) {m : ℕ} (e : ℤ) (pos : 0 < m) :
    UnpackedFloat.pack .binary64 (.finite s m e pos) =
      if 2 ^ 11 ≤ (e + 1075).toNat + 1 then packComponents .binary64 s (-1#11) 0#52
      else if m.log2 + 1 = 53 then
        packComponents .binary64 s (BitVec.ofNat 11 (e + 1075).toNat) (BitVec.ofNat 52 m)
      else packComponents .binary64 s 0#11 (BitVec.ofNat 52 m) := by
  have bias : (Format.exponentBias .binary64 : ℤ) + 52 = 1075 := rfl
  rw [← bias, ← add_assoc]
  rfl

/-- A finite number that the exponents reach is found in its word again. -/
theorem unpack_pack_finite {m : ℕ} {e : ℤ} (s : Sign) (pos : 0 < m) (fits : Fits m e) :
    (Float.Model.pack (.finite s m e pos)).unpack = settled (.finite s m e pos) := by
  have digits := fits.digits
  have least := fits.least
  change UnpackedFloat.unpack .binary64 (UnpackedFloat.pack .binary64 _) = _
  rw [pack_eq, settled]
  obtain far | reach := lt_or_ge 971 e
  · rw [if_pos far, if_pos (by omega), unpack_packComponents]
    rfl
  rw [if_neg (not_lt.mpr reach), if_neg (by omega)]
  by_cases full : 2 ^ 52 ≤ m
  · have log : m.log2 + 1 = 53 := by rw [(Nat.log2_eq_iff pos.ne').mpr ⟨full, digits⟩]
    have exponent : (BitVec.ofNat 11 (e + 1075).toNat).toNat = (e + 1075).toNat := by
      rw [BitVec.toNat_ofNat]
      omega
    have mantissa : 2 ^ 52 + (BitVec.ofNat 52 m).toNat = m := by
      rw [BitVec.toNat_ofNat]
      omega
    rw [if_pos log, unpack_packComponents, exponent, ofFields, if_neg (by omega),
      if_neg (by omega), mantissa, assembled_pos s pos]
    congr 1
    omega
  · obtain rfl := fits.full.resolve_left full
    have log : m.log2 + 1 ≠ 53 := by
      have := (Nat.log2_lt pos.ne').mpr (not_le.mp full)
      omega
    have mantissa : (BitVec.ofNat 52 m).toNat = m := by
      rw [BitVec.toNat_ofNat]
      omega
    have zero : (0#11).toNat = 0 := rfl
    rw [if_neg log, unpack_packComponents, zero, mantissa, ofFields, if_neg (by decide),
      if_pos rfl, assembled_pos s pos]

theorem unpack_pack (canonical : Canonical u) : (Float.Model.pack u).unpack = settled u := by
  cases u with
  | infinity s => cases s <;> rfl
  | notANumber => rfl
  | zero s => cases s <;> rfl
  | finite s m e pos => exact unpack_pack_finite s pos canonical

/-- Every word holds a number that its fields have room for. -/
theorem stored_unpack (x : Float.Model) : Stored x.unpack := by
  change Stored (UnpackedFloat.unpack .binary64 _)
  rw [unpack_eq]
  exact ofFields_stored _ (BitVec.isLt _) (BitVec.isLt _)

end Words

/-! ### Order -/

/-- Of two numbers the one with the higher exponent is greater. -/
theorem lt_of_exponent_lt {m n : ℕ} {e f : ℤ} (hm : Fits m e) (hn : Fits n f) (lt : e < f) :
    (m : ℝ) * 2 ^ e < n * 2 ^ f := by
  have least := hm.least
  have full : 2 ^ 52 ≤ n := hn.full.resolve_right (by omega)
  calc (m : ℝ) * 2 ^ e < 2 ^ 53 * 2 ^ e := by
        gcongr
        exact_mod_cast hm.digits
    _ = 2 ^ 52 * 2 ^ (e + 1) := by
        rw [zpow_add_one₀ (by norm_num)]
        ring
    _ ≤ n * 2 ^ f := by
        gcongr
        · exact_mod_cast full
        · norm_num
        · omega

theorem compare_digits {m n : ℕ} {e f : ℤ} (hm : Fits m e) (hn : Fits n f) :
    (compare e f).then (compare m n) = cmp ((m : ℝ) * 2 ^ e) (n * 2 ^ f) := by
  obtain lt | rfl | gt := lt_trichotomy e f
  · rw [Int.compare_eq_lt.mpr lt, (cmp_eq_lt_iff _ _).mpr (lt_of_exponent_lt hm hn lt)]
    rfl
  · have scale {m n : ℕ} : (m : ℝ) * 2 ^ e < n * 2 ^ e ↔ m < n := by
      rw [mul_lt_mul_iff_left₀ (by positivity), Nat.cast_lt]
    rw [Int.compare_eq_eq.mpr rfl]
    obtain lt | rfl | gt := lt_trichotomy m n
    · rw [Nat.compare_eq_lt.mpr lt, (cmp_eq_lt_iff _ _).mpr (scale.mpr lt)]
      rfl
    · rw [Nat.compare_eq_eq.mpr rfl, cmp_self_eq_eq]
      rfl
    · rw [Nat.compare_eq_gt.mpr gt, (cmp_eq_gt_iff _ _).mpr (scale.mpr gt)]
      rfl
  · rw [Int.compare_eq_gt.mpr gt, (cmp_eq_gt_iff _ _).mpr (lt_of_exponent_lt hn hm gt)]
    rfl

theorem Stored.magnitude_lt {s : Sign} {m : ℕ} {e : ℤ} {pos : 0 < m}
    (h : Stored (.finite s m e pos)) : (m : ℝ) * 2 ^ e < limit := by
  calc (m : ℝ) * 2 ^ e < 2 ^ 53 * 2 ^ e := by
        gcongr
        exact_mod_cast h.1.digits
    _ ≤ 2 ^ 53 * 2 ^ (971 : ℤ) := by
        gcongr
        · norm_num
        · exact h.2
    _ = limit := (limit_eq 971 53 (by norm_num)).symm

section Signed
variable {x y : ℝ}

theorem cmp_signed (s t : Sign) (hx : 0 < x) (hy : 0 < y) :
    cmp (signed s x) (signed t y) =
      match s, t with
      | .negative, .negative => (cmp x y).swap
      | .negative, .positive => .lt
      | .positive, .negative => .gt
      | .positive, .positive => cmp x y := by
  cases s <;> cases t <;> simp only [signed]
  · rw [cmp_swap]
    obtain lt | rfl | gt := lt_trichotomy x y
    · rw [(cmp_eq_gt_iff _ _).mpr lt, (cmp_eq_gt_iff _ _).mpr (neg_lt_neg lt)]
    · rw [cmp_self_eq_eq, cmp_self_eq_eq]
    · rw [(cmp_eq_lt_iff _ _).mpr gt, (cmp_eq_lt_iff _ _).mpr (neg_lt_neg gt)]
  · exact (cmp_eq_lt_iff _ _).mpr (by linarith)
  · exact (cmp_eq_gt_iff _ _).mpr (by linarith)

theorem cmp_zero_signed (t : Sign) (hy : 0 < y) :
    cmp 0 (signed t y) = match t with | .negative => .gt | .positive => .lt := by
  cases t
  · exact (cmp_eq_gt_iff _ _).mpr (neg_neg_of_pos hy)
  · exact (cmp_eq_lt_iff _ _).mpr hy

theorem cmp_signed_zero (s : Sign) (hx : 0 < x) :
    cmp (signed s x) 0 = match s with | .negative => .lt | .positive => .gt := by
  cases s
  · exact (cmp_eq_lt_iff _ _).mpr (neg_neg_of_pos hx)
  · exact (cmp_eq_gt_iff _ _).mpr hx

end Signed

/-- The order of the numbers is that of the real ones. -/
theorem compare_eq {u v : UnpackedFloat} (hu : Stored u) (hv : Stored v) (nu : u.isNaN = false)
    (nv : v.isNaN = false) : u.compare v = some (cmp (value u) (value v)) := by
  have some_pos {m : ℕ} (e : ℤ) (pos : 0 < m) : (0 : ℝ) < m * 2 ^ e := by positivity
  -- The signs decide unless they are equal and neither number is zero. Then an infinity is beyond
  -- all that is finite, and two finite numbers are compared by their digits.
  cases u with
  | notANumber => cases nu
  | infinity s =>
    cases v with
    | notANumber => cases nv
    | infinity t =>
      rw [value, value, cmp_signed s t limit_pos limit_pos, cmp_self_eq_eq]
      cases s <;> cases t <;> rfl
    | zero t =>
      rw [value, value, cmp_signed_zero s limit_pos]
      cases s <;> rfl
    | finite t n f pos' =>
      rw [value, value, cmp_signed s t limit_pos (some_pos f pos'),
        (cmp_eq_gt_iff _ _).mpr hv.magnitude_lt]
      cases s <;> cases t <;> rfl
  | zero s =>
    cases v with
    | notANumber => cases nv
    | infinity t =>
      rw [value, value, cmp_zero_signed t limit_pos]
      cases t <;> rfl
    | zero t =>
      rw [value, value, cmp_self_eq_eq]
      rfl
    | finite t n f pos' =>
      rw [value, value, cmp_zero_signed t (some_pos f pos')]
      cases t <;> rfl
  | finite s m e pos =>
    cases v with
    | notANumber => cases nv
    | infinity t =>
      rw [value, value, cmp_signed s t (some_pos e pos) limit_pos,
        (cmp_eq_lt_iff _ _).mpr hu.magnitude_lt]
      cases s <;> cases t <;> rfl
    | zero t =>
      rw [value, value, cmp_signed_zero s (some_pos e pos)]
      cases s <;> rfl
    | finite t n f pos' =>
      rw [value, value, cmp_signed s t (some_pos e pos) (some_pos f pos'),
        ← compare_digits hu.1 hv.1]
      cases s <;> cases t <;> rfl

/-- A number other than zero has its digits in one place only. -/
theorem Canonical.eq_of_value {u v : UnpackedFloat} (hu : Canonical u) (hv : Canonical v)
    (fu : u.isFinite = true) (fv : v.isFinite = true) (nonzero : value u ≠ 0)
    (same : value u = value v) : u = v := by
  cases u with
  | notANumber | infinity s => cases fu
  | zero s => exact absurd rfl nonzero
  | finite s m e pos =>
    cases v with
    | notANumber | infinity t => cases fv
    | zero t => exact absurd same nonzero
    | finite t n f pos' =>
      have order := cmp_signed s t (x := m * 2 ^ e) (y := n * 2 ^ f) (by positivity) (by positivity)
      rw [show signed s (m * 2 ^ e) = signed t (n * 2 ^ f) from same, cmp_self_eq_eq,
        ← compare_digits hu hv] at order
      have digits : s = t ∧ (compare e f).then (compare m n) = .eq := by
        generalize (compare e f).then (compare m n) = o at order ⊢
        cases s <;> cases t <;> cases o <;> first | exact ⟨rfl, rfl⟩ | cases order
      obtain ⟨rfl, places⟩ := digits
      obtain ⟨exponents, mantissas⟩ := Ordering.then_eq_eq.mp places
      obtain rfl := Int.compare_eq_eq.mp exponents
      obtain rfl := Nat.compare_eq_eq.mp mantissas
      rfl

theorem Rounds.unique {u v : UnpackedFloat} {x : ℝ} (hu : Rounds u x) (hv : Rounds v x)
    (nonzero : rounded x ≠ 0) : u = v :=
  hu.canonical.eq_of_value hv.canonical hu.finite hv.finite (hu.value_eq ▸ nonzero)
    (hu.value_eq.trans hv.value_eq.symm)

/-- What is out of the range of the finite doubles goes to its ends. -/
noncomputable def clipped (x : ℝ) : ℝ := max (-limit) (min limit x)

theorem clipped_mono : Monotone clipped := fun _ _ le => max_le_max_left _ (min_le_min_left _ le)

theorem clipped_of_abs_le {x : ℝ} (h : |x| ≤ limit) : clipped x = x := by
  rw [abs_le] at h
  rw [clipped, min_eq_right h.2, max_eq_right h.1]

theorem abs_signed (s : Sign) {x : ℝ} (nonneg : 0 ≤ x) : |signed s x| = x := by
  cases s
  · exact (abs_neg x).trans (abs_of_nonneg nonneg)
  · exact abs_of_nonneg nonneg

theorem clipped_beyond (s : Sign) {x : ℝ} (far : limit ≤ x) :
    clipped (signed s x) = signed s limit := by
  have pos := limit_pos
  cases s
  · rw [clipped, signed, min_eq_right (by linarith), max_eq_left (by linarith), signed]
  · rw [clipped, signed, min_eq_left far, max_eq_right (by linarith), signed]

theorem Stored.abs_value_le {u : UnpackedFloat} (h : Stored u) : |value u| ≤ limit := by
  cases u with
  | notANumber | zero s =>
    rw [value, abs_zero]
    exact limit_pos.le
  | infinity s => exact (abs_signed s limit_pos.le).le
  | finite s m e pos =>
    rw [value, abs_signed s (by positivity)]
    exact h.magnitude_lt.le

theorem value_settled {u : UnpackedFloat} (canonical : Canonical u) :
    value (settled u) = clipped (value u) := by
  by_cases stays : settled u = u
  · have stored := canonical.stored_settled
    rw [stays] at stored
    rw [stays, clipped_of_abs_le stored.abs_value_le]
  · cases u with
    | notANumber | zero s | infinity s => exact absurd rfl stays
    | finite s m e pos =>
      have far : 971 < e := by
        by_contra near
        exact stays (if_neg near)
      have full : 2 ^ 52 ≤ m := canonical.full.resolve_right (by omega)
      have beyond : limit ≤ m * 2 ^ e := by
        calc limit = 2 ^ 52 * 2 ^ (972 : ℤ) := limit_eq 972 52 (by norm_num)
          _ ≤ (m : ℝ) * 2 ^ e := by
              gcongr
              · exact_mod_cast full
              · norm_num
              · omega
      rw [settled, if_pos far, value, value, clipped_beyond s beyond]

/-! ### Signs -/

theorem signed_neg (s : Sign) (x : ℝ) : signed (-s) x = -signed s x := by
  cases s
  · exact (neg_neg x).symm
  · rfl

theorem value_neg (u : UnpackedFloat) : value u.neg = -value u := by
  cases u with
  | notANumber | zero s => exact neg_zero.symm
  | infinity s => exact signed_neg s limit
  | finite s m e pos => exact signed_neg s _

theorem Stored.neg {u : UnpackedFloat} (h : Stored u) : Stored u.neg := by
  cases u <;> exact h

end Metering.Binary64
