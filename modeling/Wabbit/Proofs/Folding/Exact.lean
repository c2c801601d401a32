import Wabbit.Proofs.Folding.Expressions

/-!
One operator on integer literals. Main statement: folding goes through without a step that traps,
gives the exact result of 64 bits wherever there is one, and puts a literal in place of the operator
exactly if that result has 32 bits.
-/

namespace Wabbit

open Ast

namespace Arithmetic

/-- The exact result on integers of any size, the quotient rounded down. There is no quotient by
zero. -/
def result? (op : Arithmetic) (left right : Int) : Option Int :=
  if op = div ∧ right = 0 then none else some (op.onInt left right)

theorem result?_eq_some_iff {op : Arithmetic} {left right result : Int} :
    op.result? left right = some result ↔
      (op = div → right ≠ 0) ∧ result = op.onInt left right := by
  by_cases zero : op = div ∧ right = 0
  · simp [result?, zero]
  · have proper : op = div → right ≠ 0 := fun quotient same => zero ⟨quotient, same⟩
    rw [result?, if_neg zero, Option.some.injEq, eq_comm]
    exact (and_iff_right proper).symm

/-- Folding computes a value exactly if that is the exact result. -/
theorem onInt64_eq_some_iff_result? {op : Arithmetic} {left right value : Int64} :
    op.onInt64 left right = some value ↔
      op.result? left.toInt right.toInt = some value.toInt := by
  have zero : right ≠ 0 ↔ right.toInt ≠ 0 := by simp [← Int64.toInt_inj]
  rw [onInt64_eq_some_iff, result?_eq_some_iff, zero]

/-- Folding computes a value exactly if the exact result has 64 bits. -/
theorem onInt64_isSome_iff {op : Arithmetic} {left right : Int64} :
    (op.onInt64 left right).isSome = true ↔
      ∃ result, op.result? left.toInt right.toInt = some result ∧
        -2 ^ 63 ≤ result ∧ result < 2 ^ 63 := by
  constructor
  · intro computes
    obtain ⟨value, computed⟩ := Option.isSome_iff_exists.mp computes
    exact ⟨value.toInt, onInt64_eq_some_iff_result?.mp computed, value.le_toInt, value.toInt_lt⟩
  · rintro ⟨result, exact, low, high⟩
    rw [← toInt_ofInt64 low high] at exact
    exact Option.isSome_iff_exists.mpr ⟨_, onInt64_eq_some_iff_result?.mpr exact⟩

/-! ### Single steps -/

/-- Why a step of the machine gives no result. -/
inductive Trap where
  | overflow
  | zeroDivisor
  deriving DecidableEq, Repr

/-- A result that is given up if it overflows. -/
def checked (overflow : Bool) (value : Int64) : Option Int64 :=
  if overflow then none else some value

/-- The remainder of a division. The machine divides for it, so it traps where there is no
quotient. -/
def remainder (left right : Int64) : Except Trap Int64 :=
  if right = 0 then .error .zeroDivisor
  else if left.toBitVec.sdivOverflow right.toBitVec then .error .overflow
  else .ok (left % right)

/-- A difference, which traps if it overflows. -/
def difference (left right : Int64) : Except Trap Int64 :=
  if left.toBitVec.ssubOverflow right.toBitVec then .error .overflow else .ok (left - right)

/-- The result of an operator with all steps on the way to it. The first step is checked. Behind it
stand, for a quotient, the remainder and the correction, which are not. -/
def stepwise (op : Arithmetic) (left right : Int64) : Except Trap (Option Int64) :=
  match op with
  | add => .ok (checked (left.toBitVec.saddOverflow right.toBitVec) (left + right))
  | sub => .ok (checked (left.toBitVec.ssubOverflow right.toBitVec) (left - right))
  | mul => .ok (checked (left.toBitVec.smulOverflow right.toBitVec) (left * right))
  | div =>
    match checked (right = 0 || left.toBitVec.sdivOverflow right.toBitVec) (left / right) with
    | none => .ok none
    | some quotient => do
      let rest ← remainder left right
      if rest ≠ 0 ∧ (left < 0 ↔ ¬ right < 0) then
        let corrected ← difference quotient 1
        return some corrected
      else return some quotient

/-- A quotient that leaves a rest is far from the least integer, so it can be corrected. -/
theorem difference_quotient {left right : Int64} (proper : right ≠ 0) (rest : left % right ≠ 0) :
    difference (left / right) 1 = .ok (left / right - 1) := by
  have nonzero : right.toInt ≠ 0 := fun same => proper (Int64.toInt_inj.mp same)
  have remains : left.toInt.tmod right.toInt ≠ 0 := by
    rw [← Int64.toInt_mod]
    exact fun same => rest (Int64.toInt_inj.mp same)
  have large : 2 ≤ right.toInt.natAbs := by
    by_contra small
    have unit : right.toInt = 1 ∨ right.toInt = -1 := by omega
    rcases unit with one | one <;> simp [one] at remains
  have halved := natAbs_tdiv_le left.toInt large
  have low := left.le_toInt
  have high := left.toInt_lt
  have quotient : (left / right).toInt = left.toInt.tdiv right.toInt := by
    rw [Int64.toInt_div]
    exact Int.bmod_eq_of_le (by omega) (by omega)
  refine if_neg ?_
  simp only [BitVec.ssubOverflow, Int64.toInt_toBitVec, quotient, Int64.toInt_one, Bool.or_eq_true,
    decide_eq_true_eq]
  omega

/-- No step on the way to a result traps. -/
theorem stepwise_eq_ok (op : Arithmetic) (left right : Int64) :
    op.stepwise left right = .ok (op.onInt64 left right) := by
  cases op with
  | add | sub | mul => rfl
  | div =>
    by_cases undefined : right = 0 ∨ left.toBitVec.sdivOverflow right.toBitVec = true
    · simp [stepwise, onInt64, checked, undefined]
    · obtain ⟨proper, inside⟩ := not_or.mp undefined
      have quotient : checked (right = 0 || left.toBitVec.sdivOverflow right.toBitVec) (left / right) =
          some (left / right) := by simp [checked, proper, inside]
      have rest : remainder left right = .ok (left % right) := by simp [remainder, proper, inside]
      rw [stepwise, onInt64, if_neg undefined, quotient]
      refine Success.bind_eq_ok.mpr ⟨_, rest, ?_⟩
      by_cases rounded : left % right ≠ 0 ∧ (left < 0 ↔ ¬ right < 0)
      · rw [if_pos rounded, if_pos rounded]
        exact Success.bind_eq_ok.mpr ⟨_, difference_quotient proper rounded.1, rfl⟩
      · rw [if_neg rounded, if_neg rounded]
        rfl

end Arithmetic

namespace Ast.Expr

variable {ν : Type} {negation : Prop} {op : Arithmetic} {left right : Int64}

theorem literal?_int_eq_some_iff {value : Int64} :
    literal? op (int left) (int right) = some (int value : Expr ν negation) ↔
      op.result? left.toInt right.toInt = some value.toInt ∧ fitsInt32 value = true := by
  simp only [literal?, Option.map_eq_some_iff, int.injEq, exists_eq_right,
    Option.filter_eq_some_iff, Arithmetic.onInt64_eq_some_iff_result?]

/-- There is a literal for an operator on integers exactly if the exact result has 32 bits. -/
theorem literal?_int_isSome_iff :
    (literal? op (int left) (int right) : Option (Expr ν negation)).isSome = true ↔
      ∃ result, op.result? left.toInt right.toInt = some result ∧
        -2 ^ 31 ≤ result ∧ result < 2 ^ 31 := by
  constructor
  · intro some
    obtain ⟨value, computed⟩ := Option.isSome_iff_exists.mp
      ((Option.isSome_map ..).symm.trans some)
    obtain ⟨computed, fits⟩ := Option.filter_eq_some_iff.mp computed
    exact ⟨value.toInt, Arithmetic.onInt64_eq_some_iff_result?.mp computed, fitsInt32_iff.mp fits⟩
  · rintro ⟨result, exact, low, high⟩
    have kept : (Int64.ofInt result).toInt = result := toInt_ofInt64 (by omega) (by omega)
    refine Option.isSome_iff_exists.mpr ⟨int (.ofInt result), literal?_int_eq_some_iff.mpr ?_⟩
    rw [fitsInt32_iff, kept]
    exact ⟨exact, low, high⟩

/-- What an operator on integers is folded to. -/
def foldedIntegers (op : Arithmetic) (left right : Int64) : Expr ν negation :=
  (literal? op (int left) (int right)).getD (.arith op (int left) (int right))

theorem foldedIntegers_eq_int_iff {value : Int64} :
    (foldedIntegers op left right : Expr ν negation) = int value ↔
      op.result? left.toInt right.toInt = some value.toInt ∧ fitsInt32 value = true := by
  refine Iff.trans ?_ (@literal?_int_eq_some_iff ν negation ..)
  unfold foldedIntegers
  cases literal? op (int left) (int right) with
  | none => simp
  | some literal => simp

theorem foldedIntegers_isLiteral_iff :
    (foldedIntegers op left right : Expr ν negation).isLiteral = true ↔
      ∃ result, op.result? left.toInt right.toInt = some result ∧
        -2 ^ 31 ≤ result ∧ result < 2 ^ 31 := by
  refine Iff.trans ?_ (@literal?_int_isSome_iff ν negation ..)
  unfold foldedIntegers
  cases amounts : literal? op (int left) (int right) with
  | none => simp [isLiteral]
  | some literal => simp [isLiteral_literal? amounts]

theorem foldedIntegers_cases :
    (foldedIntegers op left right : Expr ν negation) = .arith op (int left) (int right) ∨
      (foldedIntegers op left right : Expr ν negation).isLiteral = true := by
  unfold foldedIntegers
  cases amounts : literal? op (int left) (int right) with
  | none => exact .inl rfl
  | some literal => exact .inr (isLiteral_literal? amounts)

/-- It does not matter what the operands were before they were folded to integers. -/
theorem fold_arith_integers [Named ν] {first second : Expr ν negation}
    (isLeft : first.fold = .ok (int left)) (isRight : second.fold = .ok (int right)) :
    (arith op first second).fold = .ok (foldedIntegers op left right) := by
  obtain ⟨inFirst, ofFirst⟩ := fold_eq_ok_iff.mp isLeft
  obtain ⟨inSecond, ofSecond⟩ := fold_eq_ok_iff.mp isRight
  have same : first.kind = second.kind := by
    rw [← kind_folded first, ← kind_folded second, ← ofFirst, ← ofSecond]
    rfl
  refine fold_eq_ok_iff.mpr ⟨by simp [isKinded, same, inFirst, inSecond], ?_⟩
  rw [folded, ← ofFirst, ← ofSecond, foldedIntegers]

end Ast.Expr

/-- Arithmetic on 64 bit integers traps nowhere, and gives a value exactly if the exact result has 64
bits; the value is that result. An operator whose operands are folded to integers is folded to a
literal exactly if the exact result has 32 bits, and stays otherwise. -/
theorem Arithmetic.folds_exactly {ν : Type} {negation : Prop} [Named ν] (op : Arithmetic)
    (left right : Int64) :
    op.stepwise left right = .ok (op.onInt64 left right) ∧
      (∀ value, op.onInt64 left right = some value ↔
        op.result? left.toInt right.toInt = some value.toInt) ∧
      ((op.onInt64 left right).isSome = true ↔
        ∃ result, op.result? left.toInt right.toInt = some result ∧
          -2 ^ 63 ≤ result ∧ result < 2 ^ 63) ∧
      ∀ first second : Expr ν negation, first.fold = .ok (.int left) →
        second.fold = .ok (.int right) →
        ∃ folded, (Expr.arith op first second).fold = .ok folded ∧
          (∀ value, folded = .int value ↔
            op.result? left.toInt right.toInt = some value.toInt ∧ fitsInt32 value = true) ∧
          (folded.isLiteral = true ↔
            ∃ result, op.result? left.toInt right.toInt = some result ∧
              -2 ^ 31 ≤ result ∧ result < 2 ^ 31) ∧
          (folded = .arith op (.int left) (.int right) ∨ folded.isLiteral = true) := by
  refine ⟨op.stepwise_eq_ok left right, fun _ => onInt64_eq_some_iff_result?, onInt64_isSome_iff, ?_⟩
  intro first second isLeft isRight
  exact ⟨Expr.foldedIntegers op left right, Expr.fold_arith_integers isLeft isRight,
    fun _ => Expr.foldedIntegers_eq_int_iff, Expr.foldedIntegers_isLiteral_iff,
    Expr.foldedIntegers_cases⟩

/-- The least integer has no quotient by minus one. Its quotient by three is rounded down, and has too
many bits for a literal. -/
theorem Arithmetic.folds_exactly_least :
    let least : Expr Name True := .int Int64.minValue
    div.stepwise Int64.minValue (-1) = .ok none ∧
      div.stepwise Int64.minValue 3 = .ok (some (-3074457345618258603)) ∧
      (Expr.arith .div least (.int 3)).fold = .ok (.arith .div least (.int 3)) := by
  intro least
  obtain ⟨byOne, -⟩ := @folds_exactly Name True _ div Int64.minValue (-1)
  obtain ⟨byThree, -, -, folds⟩ := @folds_exactly Name True _ div Int64.minValue 3
  obtain ⟨folded, isFolded, -, isLiteral, stays⟩ := folds least (.int 3) rfl rfl
  have large : ¬ folded.isLiteral = true := by
    rw [isLiteral]
    rintro ⟨result, exact, low, high⟩
    have quotient : result = -3074457345618258603 := (Option.some.inj exact).symm
    omega
  rw [stays.resolve_right large] at isFolded
  exact ⟨byOne, byThree, isFolded⟩

end Wabbit
