import Mathlib
import Wabbit.Binary64

/-!
The difference of a number from zero. It is the number with the other sign, but for zero, where it is
zero itself, and for what is not a number, where it is the one NaN that operators give.
-/

namespace Wabbit.Binary64

open Float.Model (UnpackedFloat Format)
open Float.Model.UnpackedFloat

/-- What operators give where there is no number to give. -/
def nan : Binary64 := ⟨0x7ff8000000000000⟩

private theorem neg_neg (x : Binary64) : x.neg.neg = x := by
  rw [neg, neg, UInt64.xor_assoc, UInt64.xor_self, UInt64.xor_zero]

/-! ### Numbers taken apart -/

private def sign (x : Binary64) : Sign := .ofBitVec (@unpackSign Format.binary64 x.bits.toBitVec)

private def exponent (x : Binary64) : BitVec 11 := @unpackExponent Format.binary64 x.bits.toBitVec

private def fraction (x : Binary64) : BitVec 52 := @unpackMantissa Format.binary64 x.bits.toBitVec

private def unpacked (x : Binary64) : UnpackedFloat := unpack Format.binary64 x.bits.toBitVec

private def packed (f : UnpackedFloat) : Binary64 := ⟨⟨f.pack Format.binary64⟩⟩

private theorem exponent_toNat (x : Binary64) : x.exponent.toNat = x.exponentField := by
  rw [exponent, unpackExponent_def]
  exact BitVec.extractLsb'_toNat ..

private theorem fraction_toNat (x : Binary64) : x.fraction.toNat = x.fractionField := by
  rw [fraction, unpackMantissa_def]
  refine (BitVec.extractLsb'_toNat ..).trans ?_
  rw [Nat.shiftRight_zero]
  rfl

private theorem isNaN_iff_bits {x : Binary64} :
    x.isNaN = true ↔ x.exponent = -1#11 ∧ x.fraction ≠ 0#52 := by
  rw [isNaN, decide_eq_true_iff, ← exponent_toNat, ← fraction_toNat, Ne, Ne, ← BitVec.toNat_inj,
    ← BitVec.toNat_inj]
  rfl

private theorem isNaN_iff_unpacked {x : Binary64} : x.isNaN = true ↔ x.unpacked = .notANumber := by
  rw [isNaN_iff_bits, unpacked, unpack]
  split_ifs with full empty
  · exact iff_of_false (fun given => given.2 empty) nofun
  · exact iff_of_true ⟨full, empty⟩ rfl
  all_goals exact iff_of_false (fun given => full given.1) nofun

/-- A number is put together again from its parts, but a NaN loses its payload. -/
private theorem packed_unpacked (x : Binary64) : packed x.unpacked = if x.isNaN then nan else x := by
  have whole : packed x.unpacked =
      ⟨⟨if @isNaNBits Format.binary64 x.bits.toBitVec = true then packedNaN Format.binary64
        else x.bits.toBitVec⟩⟩ :=
    congrArg (fun word => (⟨⟨word⟩⟩ : Binary64)) (pack_unpack _)
  have same : @isNaNBits Format.binary64 x.bits.toBitVec = x.isNaN :=
    Bool.eq_iff_iff.mpr (decide_eq_true_iff.trans isNaN_iff_bits.symm)
  rw [whole, same]
  split <;> rfl

private theorem unpacked_packed_unpacked (x : Binary64) :
    (packed x.unpacked).unpacked = x.unpacked := by
  rw [packed_unpacked]
  split
  · next given =>
    rw [isNaN_iff_unpacked.mp given]
    exact isNaN_iff_unpacked.mp (by decide)
  · rfl

/-! ### The other sign -/

private theorem exponent_neg (x : Binary64) : x.neg.exponent = x.exponent := by
  rw [exponent, exponent, unpackExponent_def, unpackExponent_def]
  exact (BitVec.extractLsb'_xor ..).trans (BitVec.xor_zero ..)

private theorem fraction_neg (x : Binary64) : x.neg.fraction = x.fraction := by
  rw [fraction, fraction, unpackMantissa_def, unpackMantissa_def]
  exact (BitVec.extractLsb'_xor ..).trans (BitVec.xor_zero ..)

private theorem sign_neg (x : Binary64) : x.neg.sign = -x.sign := by
  have flipped (bit : BitVec 1) : Sign.ofBitVec (bit ^^^ 1#1) = -Sign.ofBitVec bit := by
    obtain rfl | rfl : bit = 0#1 ∨ bit = 1#1 := by decide +revert
    · rfl
    · rfl
  rw [sign, sign, unpackSign_def, unpackSign_def, ← flipped]
  exact congrArg Sign.ofBitVec (BitVec.extractLsb'_xor ..)

private theorem unpacked_neg (x : Binary64) : x.neg.unpacked = x.unpacked.neg := by
  have sign := x.sign_neg
  have exponent := x.exponent_neg
  have fraction := x.fraction_neg
  simp only [Binary64.sign, Binary64.exponent, Binary64.fraction] at sign exponent fraction
  simp only [unpacked, unpack, sign, exponent, fraction]
  split_ifs <;> rfl

/-! ### Differences from zero -/

private theorem sub_eq_packed (x y : Binary64) :
    sub x y = packed (UnpackedFloat.sub Format.binary64 x.unpacked y.unpacked) := by
  rw [← x.unpacked_packed_unpacked, ← y.unpacked_packed_unpacked]
  rfl

private theorem packed_unpacked_of_ne {x : Binary64} (number : x.unpacked ≠ .notANumber) :
    packed x.unpacked = x := by
  rw [packed_unpacked, if_neg fun given => number (isNaN_iff_unpacked.mp given)]

private theorem unpacked_neg_ne {x : Binary64} (number : x.unpacked ≠ .notANumber) :
    x.neg.unpacked ≠ .notANumber := by
  rw [Ne, ← isNaN_iff_unpacked, isNaN_iff_bits, exponent_neg, fraction_neg, ← isNaN_iff_bits,
    isNaN_iff_unpacked]
  exact number

private theorem sub_zero_of_unpacked {x : Binary64} (number : x.unpacked ≠ .notANumber)
    (turned : UnpackedFloat.sub Format.binary64 (.zero .positive) x.unpacked = x.unpacked.neg) :
    sub zero x = x.neg := by
  calc sub zero x
    _ = packed (UnpackedFloat.sub Format.binary64 (.zero .positive) x.unpacked) := sub_eq_packed ..
    _ = packed x.neg.unpacked := by rw [turned, unpacked_neg]
    _ = x.neg := packed_unpacked_of_ne (unpacked_neg_ne number)

/-- The difference of a number from zero is the number with the other sign, except for zero and for
all NaNs but one. -/
theorem sub_zero_eq_neg_iff {x : Binary64} :
    sub zero x = x.neg ↔ x ≠ zero ∧ (x.isNaN = true → x = nan.neg) := by
  have notZero (other : x.unpacked ≠ .zero .positive) : x ≠ zero := by
    rintro rfl
    exact other rfl
  cases parts : x.unpacked with
  | zero s =>
    have whole : packed (.zero s) = x := by
      rw [← parts]
      exact packed_unpacked_of_ne (by rw [parts]; nofun)
    rw [← whole]
    cases s <;> decide
  | notANumber =>
    have given : x.isNaN = true := isNaN_iff_unpacked.mpr parts
    have result : sub zero x = nan := by
      rw [sub_eq_packed, parts]
      rfl
    rw [result]
    constructor
    · intro same
      exact ⟨notZero (by rw [parts]; nofun), fun _ => by rw [same, neg_neg]⟩
    · rintro ⟨-, own⟩
      rw [own given, neg_neg]
  | infinity s | finite s =>
    have number : x.unpacked ≠ .notANumber := by
      rw [parts]
      nofun
    have turned : sub zero x = x.neg := sub_zero_of_unpacked number (by rw [parts]; rfl)
    refine iff_of_true turned ⟨notZero (by rw [parts]; nofun), fun given => ?_⟩
    exact absurd (isNaN_iff_unpacked.mp given) number

end Wabbit.Binary64
