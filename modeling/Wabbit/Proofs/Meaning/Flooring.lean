import Wabbit.Proofs.Folding.Expressions
import Wabbit.Proofs.Meaning.Folding

/-!
Folding and the rules of the language itself, by which integers wrap around at 32 bits, quotients are
rounded down and there is no quotient by zero. Main statement: folding keeps the value of every
expression with literals of 32 bits, its reads and its calls, and leaves nothing that it could have
computed.
-/

namespace Wabbit

/-- What folding computes on literals of 32 bits is what the language says. -/
theorem Arithmetic.floored_toInt32 {op : Arithmetic} {left right value : Int64}
    (fitsLeft : fitsInt32 left = true) (fitsRight : fitsInt32 right = true)
    (computed : op.onInt64 left right = some value) :
    op.floored left.toInt32 right.toInt32 = some value.toInt32 := by
  obtain ⟨proper, same⟩ := onInt64_eq_some_iff.mp computed
  have defined : ¬ (op = div ∧ right.toInt32 = 0) := by
    rintro ⟨quotient, zero⟩
    apply proper quotient
    rw [← Int32.toInt_inj, toInt_toInt32 fitsRight] at zero
    exact Int64.toInt_inj.mp zero
  rw [floored, if_neg defined, toInt_toInt32 fitsLeft, toInt_toInt32 fitsRight, ← same,
    Option.some.injEq, ← Int32.toInt_inj, Int32.toInt_ofInt, Int64.toInt_toInt32]

namespace Ast.Expr

open Tac (Address)

variable {ν : Type} {negation : Prop} [Named ν]

private theorem foldsBy_source {e : Expr ν negation}
    (small : ∀ literal, .int literal ∈ e.parts → fitsInt32 literal = true) : e.FoldsBy .source := by
  cases e with
  | arith op left right =>
    obtain ⟨smallLeft, smallRight⟩ := small_operands small
    refine ⟨fun a b value isInt isInt' folded => ?_, fun x y _ _ => by cases op <;> rfl⟩
    have computed := (Option.filter_eq_some_iff.mp folded).1
    exact Arithmetic.floored_toInt32 (fitsInt32_of_fold smallLeft isInt)
      (fitsInt32_of_fold smallRight isInt') computed
  | neg allowed inner =>
    have opposite (a : Int64) : -a.toInt32 = (-a).toInt32 := by simp
    exact ⟨fun a _ _ => congrArg some (opposite a), fun x _ => rfl⟩
  | _ => trivial

/-- Folding succeeds where operands have one kind. Its results have the meaning of the expression by
the rules of the language, with the same reads and calls in every world, and every operator on
literals in them has a reason to stay. -/
theorem fold_keeps_source_meaning {e : Expr ν negation}
    (small : ∀ literal, .int literal ∈ e.parts → fitsInt32 literal = true) :
    (e.isKinded = true → ∃ e', e.fold = .ok e') ∧
      ∀ e', e.fold = .ok e' →
        (∀ (w : World) (place : ν → Address),
          e'.evaluate w .source place = e.evaluate w .source place) ∧
        ∀ d ∈ e'.parts, d.IsNormal := by
  refine ⟨fun kinded => ⟨e.folded, fold_eq_ok_iff.mpr ⟨kinded, rfl⟩⟩, fun e' done => ?_⟩
  obtain ⟨kinded, rfl⟩ := fold_eq_ok_iff.mp done
  refine ⟨fun w place => ?_, e.folded_isNormal⟩
  have agree : ∀ d ∈ e.parts, d.FoldsBy .source := fun d inside =>
    foldsBy_source fun literal deeper => small literal (parts_trans deeper inside)
  have keeps : e.FoldKeepsMeaning w .source place := foldKeepsMeaning kinded agree
  obtain ⟨_, folded, meaning⟩ := keeps
  cases done.symm.trans folded
  exact meaning

/-- In `f(-7 / 2) + (2147483647 + 1) / x` a quotient is rounded down, and a sum stays. -/
theorem fold_keeps_source_meaning_rounded :
    let call (argument : Expr Name True) : Expr Name True := .call ⟨"f", .integer⟩ [argument]
    let quotient : Expr Name True :=
      .arith .div (.arith .add (.int 2147483647) (.int 1)) (.name ⟨"x", .integer⟩)
    let e : Expr Name True :=
      .arith .add (call (.arith .div (.neg trivial (.int 7)) (.int 2))) quotient
    let e' : Expr Name True := .arith .add (call (.int (-4))) quotient
    (∀ literal, .int literal ∈ e.parts → fitsInt32 literal = true) ∧ e.fold = .ok e' ∧
      (∀ (w : World) (place : Name → Address),
        e'.evaluate w .source place = e.evaluate w .source place) ∧
      ∀ d ∈ e'.parts, d.IsNormal := by
  intro call quotient e e'
  have small : ∀ literal, .int literal ∈ e.parts → fitsInt32 literal = true := by
    intro literal inside
    have numbers : literal = 7 ∨ literal = 2 ∨ literal = 2147483647 ∨ literal = 1 := by
      simpa [e, call, quotient, parts, allParts] using inside
    rcases numbers with rfl | rfl | rfl | rfl <;> rfl
  have folds : e.fold = .ok e' := rfl
  exact ⟨small, folds, (fold_keeps_source_meaning small).2 e' folds⟩

end Ast.Expr

end Wabbit
