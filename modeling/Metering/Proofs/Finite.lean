import Metering.Proofs.Doubles
import Metering.Proofs.Writing
/-!
Whole numbers of up to 53 binary digits are finite as doubles, and so is what a literal of one
names.
-/

namespace Metering.Binary64

theorem isInf_of_finite {x : Float} (finite : x.isFinite = true) : x.isInf = false := by
  change x.toModel.unpack.isFinite = true at finite
  change x.toModel.unpack.isInf = false
  cases h : x.toModel.unpack <;> rw [h] at finite <;> first | rfl | cases finite

theorem isInf_scaled {n : Nat} (h : n < 2 ^ 53) : (Float.ofNat n * Json.tenTo 0).isInf = false := by
  have ten : Json.tenTo 0 = Float.ofBits 0x3FF0000000000000 := by decide +kernel
  have whole := ofNat_exactly h.le
  have product := mul_nears whole.finite (y := Float.ofBits 0x3FF0000000000000) (by rfl)
  rw [whole.real_eq, real_one, mul_one] at product
  rw [ten]
  exact isInf_of_finite (product.exactly (rounded_natCast h.le) (abs_natCast_le h.le)).finite

end Metering.Binary64

namespace Metering.Json

theorem le_foldl_digits (ds : List Char) (n : Nat) :
    n ≤ ds.foldl (fun n d => 10 * n + Text.digitValue d) n := by
  induction ds generalizing n with
  | nil => exact Nat.le_refl _
  | cons d ds ih => exact (by omega : n ≤ 10 * n + Text.digitValue d).trans (ih _)

/-- Digits that fit a word are all taken. -/
theorem takeWord_fits (ds : List Char) (n count : Nat)
    (h : ds.foldl (fun n d => 10 * n + Text.digitValue d) n < 0x10000000000000000) :
    takeWord n count ds =
      (ds.foldl (fun n d => 10 * n + Text.digitValue d) n, count + ds.length, []) := by
  induction ds generalizing n count with
  | nil => rfl
  | cons d ds ih =>
    have next := (le_foldl_digits ds (10 * n + Text.digitValue d)).trans_lt h
    rw [takeWord, if_pos next, ih _ _ h]
    simp only [List.foldl_cons, List.length_cons]
    congr 2
    omega

theorem parts_literal {n : Nat} (h : n < 0x10000000000000000) :
    (literal n).parts = (n, 0) := by
  have whole : (Nat.toDigits 10 n).foldl (fun n d => 10 * n + Text.digitValue d) 0 = n :=
    digitsValue_toDigits n
  have word := takeWord_fits (Nat.toDigits 10 n) 0 0 (by rwa [whole])
  simp [Number.parts, literal, word, whole, takeWord]

/-- A whole number of few digits is in the range of doubles. -/
theorem float?_literal {n : Nat} (h : n < 2 ^ 53) : (literal n).float?.isSome := by
  have finite := Binary64.isInf_scaled h
  have parts := parts_literal (n := n) (by omega)
  have plain : (literal n).exponent = none := rfl
  simp [Number.float?, Number.magnitude?, parts, plain, scale, finite]

end Metering.Json
