import Mathlib.Algebra.Order.Ring.Int
import Wabbit.Ast.Folding
import Wabbit.Proofs.World

/-!
Integer arithmetic before the program runs and in it. Folding computes exactly, in 64 bits, and
rounds quotients down; emitted instructions compute in 32 bits and cut quotients off. The two differ
at negative quotients that had to be rounded, and nowhere else.
-/

namespace Wabbit

theorem fitsInt32_iff {value : Int64} :
    fitsInt32 value = true ↔ -2 ^ 31 ≤ value.toInt ∧ value.toInt < 2 ^ 31 := by
  simp only [fitsInt32, Int32.toInt_minValue, Int32.toInt_maxValue, decide_eq_true_eq]
  omega

theorem fitsInt32_neg_iff {value : Int64} :
    fitsInt32 (-value) = true ↔ -2 ^ 31 ≤ -value.toInt ∧ -value.toInt < 2 ^ 31 := by
  have low := value.le_toInt
  have high := value.toInt_lt
  rw [fitsInt32_iff, Int64.toInt_neg]
  by_cases least : value.toInt = -2 ^ 63
  · rw [least]
    decide
  · rw [Int.bmod_eq_of_le (by omega) (by omega)]

theorem toInt_toInt32 {value : Int64} (fits : fitsInt32 value = true) :
    value.toInt32.toInt = value.toInt := by
  obtain ⟨low, high⟩ := fitsInt32_iff.mp fits
  rw [Int64.toInt_toInt32]
  exact Int.bmod_eq_of_le (by omega) (by omega)

/-- Integers of 64 bits are those that wrapping around does not change. -/
theorem toInt_ofInt64 {value : Int} (low : -2 ^ 63 ≤ value) (high : value < 2 ^ 63) :
    (Int64.ofInt value).toInt = value := by
  rw [Int64.toInt_ofInt]
  exact Int.bmod_eq_of_le (by simp; omega) (by simp; omega)

/-- The quotient rounded down is one less than the one cut off, unless the division leaves no rest
or both operands have the same sign. -/
theorem fdiv_eq_ite (left : Int) {right : Int} (proper : right ≠ 0) :
    left.fdiv right =
      if left.tmod right ≠ 0 ∧ (left < 0 ↔ ¬ right < 0) then left.tdiv right - 1
      else left.tdiv right := by
  rw [Int.fdiv_eq_tdiv]
  by_cases divides : right ∣ left
  · simp [divides, Int.dvd_iff_tmod_eq_zero.mp divides]
  · have rest : left.tmod right ≠ 0 := fun none => divides (Int.dvd_iff_tmod_eq_zero.mpr none)
    simp only [divides, rest, ↓reduceIte, ne_eq, not_false_eq_true, true_and]
    rcases lt_or_gt_of_ne proper with negative | positive
    · rw [Int.sign_eq_neg_one_of_neg negative]
      split_ifs <;> omega
    · rw [Int.sign_eq_one_of_pos positive]
      split_ifs <;> omega

theorem fdiv_eq_tdiv_iff {left right : Int} (proper : right ≠ 0) :
    left.fdiv right = left.tdiv right ↔ right ∣ left ∨ (left < 0 ↔ right < 0) := by
  rw [fdiv_eq_ite _ proper, Int.dvd_iff_tmod_eq_zero]
  split <;> omega

/-- A divisor other than one and its opposite at least halves. -/
theorem natAbs_tdiv_le (left : Int) {right : Int} (large : 2 ≤ right.natAbs) :
    2 * (left.tdiv right).natAbs ≤ left.natAbs := by
  rw [Int.natAbs_tdiv]
  have halved : left.natAbs / right.natAbs ≤ left.natAbs / 2 :=
    Nat.div_le_div_left large (by decide)
  exact (Nat.mul_le_mul_left 2 halved).trans (Nat.mul_div_le ..)

/-- Only dividing by one or its opposite does not halve. -/
theorem fdiv_bounds (left : Int) {right : Int} (proper : right ≠ 0) :
    right = 1 ∧ left.fdiv right = left ∨ right = -1 ∧ left.fdiv right = -left ∨
      2 ≤ right.natAbs ∧ 2 * (left.fdiv right).natAbs ≤ left.natAbs + 2 := by
  by_cases large : 2 ≤ right.natAbs
  · have halved := natAbs_tdiv_le left large
    refine .inr (.inr ⟨large, ?_⟩)
    rw [fdiv_eq_ite _ proper]
    split <;> omega
  · have small : right = 1 ∨ right = -1 := by omega
    rcases small with rfl | rfl
    · simp
    · simp [fdiv_eq_ite]

namespace Arithmetic

/-- The result on integers of any size, the quotient rounded down. -/
def onInt : Arithmetic → Int → Int → Int
  | add, left, right => left + right
  | sub, left, right => left - right
  | mul, left, right => left * right
  | div, left, right => left.fdiv right

/-- A result that wraps around is given exactly if it is checked for overflow. -/
theorem checked_eq_some_iff {overflow : Bool} {computed value : Int64} {result : Int}
    (wraps : computed.toInt = result.bmod (2 ^ 64))
    (exceeds : overflow = true ↔ ¬ (-2 ^ 63 ≤ result ∧ result < 2 ^ 63)) :
    (if overflow then none else some computed) = some value ↔ value.toInt = result := by
  have low := value.le_toInt
  have high := value.toInt_lt
  by_cases outside : overflow = true
  · have far := exceeds.mp outside
    simp only [outside, ↓reduceIte, reduceCtorEq, false_iff]
    omega
  · have inside : -2 ^ 63 ≤ result ∧ result < 2 ^ 63 := by
      by_contra far
      exact outside (exceeds.mpr far)
    rw [Int.bmod_eq_of_le (by omega) (by omega)] at wraps
    simp only [outside, Bool.false_eq_true, ↓reduceIte, Option.some.injEq, ← Int64.toInt_inj, wraps,
      eq_comm]

/-- Folding gives the exact result whenever that has 64 bits. -/
theorem onInt64_eq_some_iff {op : Arithmetic} {left right value : Int64} :
    op.onInt64 left right = some value ↔
      (op = div → right ≠ 0) ∧ value.toInt = op.onInt left.toInt right.toInt := by
  cases op with
  | add =>
    simp only [onInt64, onInt, reduceCtorEq, false_implies, true_and]
    apply checked_eq_some_iff (Int64.toInt_add left right)
    simp only [BitVec.saddOverflow, Int64.toInt_toBitVec, Bool.or_eq_true, decide_eq_true_eq]
    omega
  | sub =>
    simp only [onInt64, onInt, reduceCtorEq, false_implies, true_and]
    apply checked_eq_some_iff (Int64.toInt_sub left right)
    simp only [BitVec.ssubOverflow, Int64.toInt_toBitVec, Bool.or_eq_true, decide_eq_true_eq]
    omega
  | mul =>
    simp only [onInt64, onInt, reduceCtorEq, false_implies, true_and]
    apply checked_eq_some_iff (Int64.toInt_mul left right)
    simp only [BitVec.smulOverflow, Int64.toInt_toBitVec, Bool.or_eq_true, decide_eq_true_eq]
    omega
  | div =>
    by_cases zero : right = 0
    · simp [onInt64, zero]
    · have proper : right.toInt ≠ 0 := fun same => zero (Int64.toInt_inj.mp same)
      simp only [onInt64, onInt, zero, false_or, ne_eq, not_false_eq_true, implies_true, true_and]
      rw [← apply_ite some]
      apply checked_eq_some_iff
      · rw [fdiv_eq_ite _ proper, apply_ite Int64.toInt, Int64.toInt_sub, Int64.toInt_div]
        simp only [← Int64.toInt_inj, Int64.toInt_mod, Int64.lt_iff_toInt_lt, Int64.toInt_zero,
          Int64.toInt_one, Int.bmod_sub_bmod, apply_ite (Int.bmod · (2 ^ 64))]
      · have low := left.le_toInt
        have high := left.toInt_lt
        have bounds := fdiv_bounds left.toInt proper
        simp only [BitVec.sdivOverflow_eq, ← BitVec.toInt_inj, Int64.toInt_toBitVec,
          BitVec.toInt_intMin, BitVec.toInt_allOnes, Nat.reduceLT, decide_true, Bool.true_and,
          Bool.and_eq_true, decide_eq_true_eq, Nat.reduceSub, Nat.reducePow, Nat.reduceMod,
          Nat.cast_ofNat, if_true]
        omega

/-- Folding gives no literal exactly for a quotient by zero and for a result beyond 32 bits. -/
theorem filter_onInt64_eq_none_iff {op : Arithmetic} {left right : Int64} :
    (op.onInt64 left right).filter fitsInt32 = none ↔
      op = div ∧ right = 0 ∨
        ¬ (-2 ^ 31 ≤ op.onInt left.toInt right.toInt ∧ op.onInt left.toInt right.toInt < 2 ^ 31) := by
  rw [Option.filter_eq_none_iff]
  constructor
  · intro none
    by_cases zero : op = div ∧ right = 0
    · exact .inl zero
    · refine .inr fun inside => ?_
      -- A result of 32 bits has 64 bits, so folding computes it.
      have kept : (Int64.ofInt (op.onInt left.toInt right.toInt)).toInt =
          op.onInt left.toInt right.toInt := toInt_ofInt64 (by omega) (by omega)
      refine none _ (onInt64_eq_some_iff.mpr ⟨fun quotient same => zero ⟨quotient, same⟩, kept⟩) ?_
      rw [fitsInt32_iff, kept]
      exact inside
  · intro excluded value computed fits
    obtain ⟨proper, same⟩ := onInt64_eq_some_iff.mp computed
    rcases excluded with ⟨quotient, zero⟩ | outside
    · exact proper quotient zero
    · exact outside (same ▸ fitsInt32_iff.mp fits)

/-- Where the result of folding fits, the emitted instruction gives it too, unless it is a quotient
that had to be rounded and is negative. -/
theorem onInt32_eq_some_iff {op : Arithmetic} {left right value : Int64}
    (fitsLeft : fitsInt32 left = true) (fitsRight : fitsInt32 right = true)
    (fits : fitsInt32 value = true) (computed : op.onInt64 left right = some value) :
    op.onInt32 left.toInt32 right.toInt32 = some value.toInt32 ↔
      (op = div → right.toInt ∣ left.toInt ∨ (left.toInt < 0 ↔ right.toInt < 0)) := by
  obtain ⟨proper, same⟩ := onInt64_eq_some_iff.mp computed
  obtain ⟨low, high⟩ := fitsInt32_iff.mp fits
  have kept : value.toInt.bmod (2 ^ 32) = value.toInt := Int.bmod_eq_of_le (by omega) (by omega)
  cases op with
  | add | sub | mul =>
    simp only [onInt32, Option.some.injEq, ← Int32.toInt_inj, Int32.toInt_add, Int32.toInt_sub,
      Int32.toInt_mul, toInt_toInt32, fitsLeft, fitsRight, fits, reduceCtorEq, false_implies,
      iff_true]
    rw [← kept, same, onInt]
  | div =>
    have nonzero : right.toInt ≠ 0 := by simpa [← Int64.toInt_inj] using proper
    obtain ⟨leftLow, leftHigh⟩ := fitsInt32_iff.mp fitsLeft
    have bounds := fdiv_bounds left.toInt nonzero
    have rounded := fdiv_eq_ite left.toInt nonzero
    rw [onInt] at same
    have defined : ¬ (right.toInt32 = 0 ∨ left.toInt32 = Int32.minValue ∧ right.toInt32 = -1) := by
      simp only [← Int32.toInt_inj, toInt_toInt32, fitsLeft, fitsRight, Int32.toInt_zero,
        Int32.toInt_minValue, Int32.reduceToInt]
      omega
    rw [onInt32, if_neg defined, Option.some.injEq, ← Int32.toInt_inj, Int32.toInt_div,
      toInt_toInt32 fitsLeft, toInt_toInt32 fitsRight, toInt_toInt32 fits, Int.bmod_eq_of_le, same,
      eq_comm, fdiv_eq_tdiv_iff nonzero]
    · simp
    all_goals split at rounded <;> omega

/-- Folding computes every quotient that has to be rounded. -/
theorem onInt64_div_of_rounded {left right : Int64} (fits : fitsInt32 left = true)
    (proper : right ≠ 0) (rounded : ¬ right.toInt ∣ left.toInt) :
    ∃ value, div.onInt64 left right = some value ∧ fitsInt32 value = true := by
  have nonzero : right.toInt ≠ 0 := by simpa [← Int64.toInt_inj] using proper
  obtain ⟨low, high⟩ := fitsInt32_iff.mp fits
  have bounds := fdiv_bounds left.toInt nonzero
  have inside : -2 ^ 31 ≤ left.toInt.fdiv right.toInt ∧ left.toInt.fdiv right.toInt < 2 ^ 31 := by
    rcases bounds with ⟨one, -⟩ | ⟨one, -⟩ | ⟨-, halved⟩
    · simp [one] at rounded
    · simp [one] at rounded
    · omega
  have kept : (Int64.ofInt (left.toInt.fdiv right.toInt)).toInt = left.toInt.fdiv right.toInt :=
    toInt_ofInt64 (by omega) (by omega)
  refine ⟨.ofInt (left.toInt.fdiv right.toInt), onInt64_eq_some_iff.mpr ⟨fun _ => proper, kept⟩, ?_⟩
  rw [fitsInt32_iff, kept]
  exact inside

end Arithmetic

end Wabbit
