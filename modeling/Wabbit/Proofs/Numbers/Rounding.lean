import Mathlib.Algebra.Order.Ring.Nat
import Mathlib.Tactic.Ring
import Wabbit.Binary64

/-!
Floating point words and the numbers that they stand for. Main statement: a fraction that is exactly
the magnitude of a finite word is rounded to that word.
-/

namespace Wabbit

/-- A quotient without a rest does not have to be rounded. -/
theorem roundHalfEven_mul (quotient : Nat) {den : Nat} (positive : 0 < den) :
    roundHalfEven (quotient * den) den = quotient := by
  rw [roundHalfEven, Nat.mul_div_cancel _ positive, Nat.mul_mod_left]
  exact if_neg (by omega)

namespace Binary64

variable (x : Binary64)

/-! ### The parts of a word -/

private theorem ext_iff_toNat {x y : Binary64} : x = y ↔ x.bits.toNat = y.bits.toNat := by
  cases x
  cases y
  simp [UInt64.toNat_inj]

theorem isNegative_iff : x.isNegative = true ↔ 2 ^ 63 ≤ x.bits.toNat := by
  simp [isNegative, Nat.shiftLeft_eq]

private theorem exponentField_eq : x.exponentField = x.bits.toNat / 2 ^ 52 % 2048 := by
  rw [exponentField, Nat.shiftRight_eq_div_pow]

theorem fractionField_eq : x.fractionField = x.bits.toNat % 2 ^ 52 := by
  simp [fractionField, Nat.shiftLeft_eq]

theorem exponentField_lt : x.exponentField < 2048 := Nat.mod_lt _ (by decide)

theorem fractionField_lt : x.fractionField < 2 ^ 52 := by
  rw [fractionField_eq]
  exact Nat.mod_lt _ (by decide)

/-- The bits of a word without its sign. -/
def magnitude : Nat := x.exponentField * 2 ^ 52 + x.fractionField

/-- A word is its sign and its magnitude. -/
theorem toNat_bits : x.bits.toNat = (if x.isNegative then 2 ^ 63 else 0) + x.magnitude := by
  have bound := x.bits.toNat_lt
  rw [magnitude, exponentField_eq, fractionField_eq]
  by_cases negative : x.isNegative = true
  · have high := (isNegative_iff x).mp negative
    rw [if_pos negative]
    omega
  · have low := mt (isNegative_iff x).mpr negative
    rw [if_neg negative]
    omega

private theorem magnitude_lt : x.magnitude < 2 ^ 63 := by
  have exponent := x.exponentField_lt
  have fraction := x.fractionField_lt
  rw [magnitude]
  omega

theorem toNat_ofMagnitude (negative : Bool) {m : Nat} (small : m < 2 ^ 63) :
    (ofMagnitude negative m).bits.toNat = (if negative then 2 ^ 63 else 0) + m := by
  rw [ofMagnitude, UInt64.toNat_ofNat', Nat.shiftLeft_eq]
  split <;> omega

private theorem isNegative_ofMagnitude (negative : Bool) {m : Nat} (small : m < 2 ^ 63) :
    (ofMagnitude negative m).isNegative = negative := by
  rw [Bool.eq_iff_iff, isNegative_iff, toNat_ofMagnitude negative small]
  cases negative with
  | false => simpa using small
  | true => simp

@[simp]
private theorem ofMagnitude_magnitude : ofMagnitude x.isNegative x.magnitude = x := by
  rw [ext_iff_toNat, toNat_ofMagnitude _ x.magnitude_lt, ← toNat_bits]

/-! ### The magnitude as a number -/

private theorem significand_lt : x.significand < 2 ^ 53 := by
  have fraction := x.fractionField_lt
  rw [significand, Nat.shiftLeft_eq]
  split <;> omega

private theorem le_significand (scaled : 0 < x.shift) : 2 ^ 52 ≤ x.significand := by
  have normal : x.exponentField ≠ 0 := by
    rw [shift] at scaled
    omega
  rw [significand, if_neg normal, Nat.shiftLeft_eq]
  omega

private theorem magnitude_eq : x.magnitude = x.shift * 2 ^ 52 + x.significand := by
  rw [magnitude, shift, significand, Nat.shiftLeft_eq]
  split <;> omega

theorem units_eq : x.units = x.significand * 2 ^ x.shift := Nat.shiftLeft_eq _ _

/-- The scale of a word can be read off the number that it stands for. -/
theorem scale_units :
    (if x.units < 1 <<< 53 then 0 else x.units.log2 - 52) = x.shift := by
  have high := x.significand_lt
  rw [units_eq, Nat.shiftLeft_eq, one_mul]
  by_cases scaled : 0 < x.shift
  · have low := x.le_significand scaled
    have lower : 2 ^ (x.shift + 52) ≤ x.significand * 2 ^ x.shift := by
      rw [Nat.pow_add, Nat.mul_comm]
      exact Nat.mul_le_mul_right _ low
    have upper : x.significand * 2 ^ x.shift < 2 ^ (x.shift + 52 + 1) := by
      rw [Nat.add_assoc, Nat.pow_add, Nat.mul_comm]
      exact Nat.mul_lt_mul_of_pos_left high (Nat.two_pow_pos _)
    have large : 2 ^ 53 ≤ x.significand * 2 ^ x.shift :=
      (Nat.pow_le_pow_right (by decide) (by omega)).trans lower
    have nonzero : x.significand * 2 ^ x.shift ≠ 0 := by omega
    rw [if_neg (by omega), (Nat.log2_eq_iff nonzero).mpr ⟨lower, upper⟩]
    omega
  · have none : x.shift = 0 := by omega
    rw [none, Nat.pow_zero, Nat.mul_one, if_pos high]

/-- A fraction that is exactly the magnitude of a finite word is rounded to the word. -/
theorem ofRatio_eq_self {num den : Nat} (finite : x.isFinite = true) (positive : 0 < den)
    (same : x.units * den = num * one) : ofRatio x.isNegative num den = x := by
  have whole : num * one / den = x.units := by
    rw [← same]
    exact Nat.mul_div_cancel _ positive
  have scaled : num * one = x.significand * (den <<< x.shift) := by
    rw [← same, units_eq, Nat.shiftLeft_eq]
    ring
  have significand : roundHalfEven (num * one) (den <<< x.shift) = x.significand := by
    rw [scaled, roundHalfEven_mul]
    rw [Nat.shiftLeft_eq]
    exact Nat.mul_pos positive (Nat.two_pow_pos _)
  have bounded : x.magnitude ≤ 2047 <<< 52 := by
    have exponent := x.exponentField_lt
    have fraction := x.fractionField_lt
    have proper : x.exponentField ≠ 2047 := by simpa [isFinite] using finite
    rw [magnitude, Nat.shiftLeft_eq]
    omega
  simp only [ofRatio, whole, scale_units, significand]
  rw [Nat.shiftLeft_eq, ← magnitude_eq, Nat.min_eq_left bounded, ofMagnitude_magnitude]

theorem isNegative_ofRatio (negative : Bool) (num den : Nat) :
    (ofRatio negative num den).isNegative = negative := by
  refine isNegative_ofMagnitude negative ((Nat.min_le_right ..).trans_lt ?_)
  decide

end Binary64

end Wabbit
