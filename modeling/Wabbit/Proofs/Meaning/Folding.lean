import Wabbit.Proofs.Meaning.Expressions

/-!
What folding does to the meaning of expressions. Under any rules for the operators the meaning of an
expression and of its parts stays exactly if the results that folding computes are those of the
rules. The rules of emitted code give other results where a negative quotient has to be rounded:
folding rounds it down, the instruction cuts it off.
-/

namespace Wabbit.Ast.Expr

open Tac (Address)

variable {ν : Type} {negation : Prop} [Named ν]

/-- Whether what folding computes at the root of an expression is what the rules give. -/
def FoldsBy (rules : Rules) : Expr ν negation → Prop
  | arith op left right =>
    (∀ a b value, left.fold = .ok (.int a) → right.fold = .ok (.int b) →
      (op.onInt64 a b).filter fitsInt32 = some value →
      rules.arithmetic op .integer a.toInt32 b.toInt32 = some value.toInt32) ∧
    (∀ x y, left.fold = .ok (.float x) → right.fold = .ok (.float y) →
      rules.arithmetic op .float x y = some (op.onBinary64 x y))
  | neg _ inner =>
    (∀ a, inner.fold = .ok (.int a) → fitsInt32 (-a) = true →
      rules.negation .integer a.toInt32 = some (-a).toInt32) ∧
    (∀ x, inner.fold = .ok (.float x) → rules.negation .float x = some x.neg)
  | _ => True

/-- Whether folding succeeds with an expression that has the same value and the same effects. -/
def FoldKeepsMeaning (w : World) (rules : Rules) (place : ν → Address) (e : Expr ν negation) :
    Prop :=
  ∃ e', e.fold = .ok e' ∧ e'.evaluate w rules place = e.evaluate w rules place

section Meaning

variable {w : World} {rules : Rules} {place : ν → Address}

/-- The literal in place of an operator on two literals has their meaning if the rules give it. -/
theorem evaluate_literal? {op : Arithmetic} {left right left' right' literal : Expr ν negation}
    (first : left.fold = .ok left') (second : right.fold = .ok right')
    (folded : literal? op left' right' = some literal)
    (root : (arith op left right).FoldsBy rules) :
    literal.evaluate w rules place = (arith op left' right').evaluate w rules place := by
  cases literal?_inv folded with
  | int computed =>
    have computes := root.1 _ _ _ first second computed
    exact congrArg w.given (Rules.apply_eq_some_iff.mpr computes).symm
  | float x y =>
    have computes := root.2 _ _ first second
    exact congrArg w.given (Rules.apply_eq_some_iff.mpr computes).symm

/-- So has the literal in place of a negated one. -/
theorem evaluate_foldNeg {allowed : negation} {inner inner' : Expr ν negation}
    (own : inner.fold = .ok inner') (root : (neg allowed inner).FoldsBy rules) :
    (inner'.foldNeg allowed).evaluate w rules place =
      (neg allowed inner').evaluate w rules place := by
  cases inner' with
  | int value =>
    rw [foldNeg]
    split
    · next fits =>
      have computes := root.1 _ own fits
      exact congrArg w.given (Rules.negate_eq_some_iff.mpr computes).symm
    · rfl
  | float value =>
    have computes := root.2 _ own
    exact congrArg w.given (Rules.negate_eq_some_iff.mpr computes).symm
  | _ => rfl

/-- Folding keeps the kind of an expression. -/
theorem kind_fold {e e' : Expr ν negation} (done : e.fold = .ok e') : e'.kind = e.kind := by
  obtain ⟨-, rfl⟩ := fold_eq_ok_iff.mp done
  exact kind_folded e

mutual

/-- Folding keeps the meaning of an expression wherever it computes what the rules give. -/
theorem foldKeepsMeaning {e : Expr ν negation} (kinded : e.isKinded = true)
    (agree : ∀ d ∈ e.parts, d.FoldsBy rules) : e.FoldKeepsMeaning w rules place := by
  cases e with
  | arith op left right =>
    simp only [isKinded, Bool.and_eq_true, decide_eq_true_eq] at kinded
    simp only [parts, List.forall_mem_cons, List.forall_mem_append] at agree
    obtain ⟨⟨same, inLeft⟩, inRight⟩ := kinded
    obtain ⟨root, first, second⟩ := agree
    obtain ⟨left', foldLeft, meaning⟩ := foldKeepsMeaning inLeft first
    obtain ⟨right', foldRight, meaning'⟩ := foldKeepsMeaning inRight second
    have kind := kind_fold foldLeft
    have kind' := kind_fold foldRight
    have rebuilt : (arith op left' right').evaluate w rules place =
        (arith op left right).evaluate w rules place := by
      simp only [evaluate, meaning, meaning', kind]
    simp only [FoldKeepsMeaning, fold, Success.bind_eq_ok]
    cases folded : literal? op left' right' with
    | some literal =>
      refine ⟨literal, ⟨left', foldLeft, right', foldRight, by rw [folded]⟩, ?_⟩
      exact (evaluate_literal? foldLeft foldRight folded root).trans rebuilt
    | none =>
      refine ⟨.arith op left' right', ⟨left', foldLeft, right', foldRight, ?_⟩, rebuilt⟩
      rw [folded]
      exact arithmetic_eq_ok.mpr ⟨by rw [kind, kind', same], rfl⟩
  | compare op left right =>
    simp only [isKinded, Bool.and_eq_true] at kinded
    simp only [parts, List.forall_mem_cons, List.forall_mem_append] at agree
    obtain ⟨left', foldLeft, meaning⟩ := foldKeepsMeaning kinded.1 agree.2.1
    obtain ⟨right', foldRight, meaning'⟩ := foldKeepsMeaning kinded.2 agree.2.2
    refine ⟨.compare op left' right', ?_, ?_⟩
    · simp only [fold, Success.bind_eq_ok]
      exact ⟨left', foldLeft, right', foldRight, rfl⟩
    · simp only [evaluate, meaning, meaning', kind_fold foldLeft, kind_fold foldRight]
  | call function arguments =>
    simp only [parts, List.forall_mem_cons] at agree
    obtain ⟨arguments', others, meaning⟩ := foldAllKeepsMeaning kinded agree.2
    refine ⟨.call function arguments', ?_, by simp only [evaluate, meaning]⟩
    simp only [fold, Success.bind_eq_ok]
    exact ⟨arguments', others, rfl⟩
  | neg allowed inner =>
    simp only [parts, List.forall_mem_cons] at agree
    obtain ⟨inner', own, meaning⟩ := foldKeepsMeaning (e := inner) kinded agree.2
    have kind := kind_fold own
    refine ⟨inner'.foldNeg allowed, ?_, ?_⟩
    · simp only [fold, Success.bind_eq_ok]
      exact ⟨inner', own, rfl⟩
    · rw [evaluate_foldNeg own agree.1]
      simp only [evaluate, meaning, kind]
  | _ => exact ⟨_, rfl, rfl⟩

theorem foldAllKeepsMeaning {es : List (Expr ν negation)} (kinded : allKinded es = true)
    (agree : ∀ d ∈ allParts es, d.FoldsBy rules) :
    ∃ es', foldAll es = .ok es' ∧ evaluateAll w rules place es' = evaluateAll w rules place es := by
  cases es with
  | nil => exact ⟨[], rfl, rfl⟩
  | cons e rest =>
    simp only [allKinded, Bool.and_eq_true] at kinded
    simp only [allParts, List.forall_mem_append] at agree
    obtain ⟨e', own, meaning⟩ := foldKeepsMeaning kinded.1 agree.1
    obtain ⟨rest', others, meaning'⟩ := foldAllKeepsMeaning kinded.2 agree.2
    refine ⟨e' :: rest', ?_, by simp only [evaluateAll, meaning, meaning']⟩
    simp only [foldAll, Success.bind_eq_ok]
    exact ⟨e', own, rest', others, rfl⟩

end

private theorem fold_arith_literal {op : Arithmetic} {left right left' right' literal : Expr ν negation}
    (first : left.fold = .ok left') (second : right.fold = .ok right')
    (amounts : literal? op left' right' = some literal) :
    (arith op left right).fold = .ok literal := by
  simp only [fold, Success.bind_eq_ok]
  exact ⟨left', first, right', second, by rw [amounts]⟩

/-- If an operator and its operands keep their meaning, folding has computed what the rules give. -/
theorem foldsBy_arith [Nonempty w.Store] {op : Arithmetic} {left right : Expr ν negation}
    (keeps : (arith op left right).FoldKeepsMeaning w rules place)
    (first : left.FoldKeepsMeaning w rules place) (second : right.FoldKeepsMeaning w rules place) :
    (arith op left right).FoldsBy rules := by
  obtain ⟨left', foldLeft, meaning⟩ := first
  obtain ⟨right', foldRight, meaning'⟩ := second
  obtain ⟨e', folded, same⟩ := keeps
  simp only [evaluate, ← meaning, ← meaning', ← kind_fold foldLeft] at same
  constructor
  · intro a b value isInt isInt' computed
    have amounts : literal? op (.int a) (.int b) = some (.int value : Expr ν negation) := by
      rw [literal?, computed, Option.map_some]
    cases foldLeft.symm.trans isInt
    cases foldRight.symm.trans isInt'
    cases folded.symm.trans (fold_arith_literal isInt isInt' amounts)
    exact Rules.apply_eq_some_iff.mp (World.given_eq_pure_iff.mp same.symm)
  · intro x y isFloat isFloat'
    cases foldLeft.symm.trans isFloat
    cases foldRight.symm.trans isFloat'
    cases folded.symm.trans (fold_arith_literal isFloat isFloat' rfl)
    exact Rules.apply_eq_some_iff.mp (World.given_eq_pure_iff.mp same.symm)

private theorem foldsBy_neg [Nonempty w.Store] {allowed : negation} {inner : Expr ν negation}
    (keeps : (neg allowed inner).FoldKeepsMeaning w rules place)
    (own : inner.FoldKeepsMeaning w rules place) : (neg allowed inner).FoldsBy rules := by
  obtain ⟨inner', foldInner, meaning⟩ := own
  obtain ⟨e', folded, same⟩ := keeps
  simp only [evaluate, ← meaning, ← kind_fold foldInner] at same
  have result : (neg allowed inner).fold = .ok (inner'.foldNeg allowed) := by
    simp only [fold, Success.bind_eq_ok]
    exact ⟨inner', foldInner, rfl⟩
  cases folded.symm.trans result
  constructor
  · intro a isInt fits
    cases foldInner.symm.trans isInt
    rw [foldNeg, if_pos fits] at same
    exact Rules.negate_eq_some_iff.mp (World.given_eq_pure_iff.mp same.symm)
  · intro x isFloat
    cases foldInner.symm.trans isFloat
    exact Rules.negate_eq_some_iff.mp (World.given_eq_pure_iff.mp same.symm)

/-- Folding keeps the meaning of an expression and of all its parts exactly if it computes what the
rules give. -/
theorem foldKeepsMeaning_iff [Nonempty w.Store] {e : Expr ν negation} (kinded : e.isKinded = true) :
    (∀ d ∈ e.parts, d.FoldKeepsMeaning w rules place) ↔ ∀ d ∈ e.parts, d.FoldsBy rules := by
  constructor
  · intro keeps d inside
    have within : ∀ {c}, c ∈ d.parts → c.FoldKeepsMeaning w rules place :=
      fun deeper => keeps _ (parts_trans deeper inside)
    cases d with
    | arith op left right =>
      apply foldsBy_arith (keeps _ inside)
      · exact within (by simp [parts, self_mem_parts])
      · exact within (by simp [parts, self_mem_parts])
    | neg allowed inner =>
      exact foldsBy_neg (keeps _ inside) (within (by simp [parts, self_mem_parts]))
    | _ => trivial
  · intro agree d inside
    apply foldKeepsMeaning (isKinded_of_mem_parts kinded inside)
    intro c deeper
    exact agree c (parts_trans deeper inside)

/-- An integer that an expression is folded to has 32 bits if its literals have. -/
theorem fitsInt32_of_fold {e : Expr ν negation} {value : Int64}
    (small : ∀ literal, .int literal ∈ e.parts → fitsInt32 literal = true)
    (folded : e.fold = .ok (.int value)) : fitsInt32 value = true := by
  cases e with
  | int literal =>
    cases folded
    exact small value (self_mem_parts _)
  | arith op left right =>
    simp only [fold, Success.bind_eq_ok] at folded
    obtain ⟨left', -, right', -, last⟩ := folded
    cases amounts : literal? op left' right' with
    | none =>
      rw [amounts] at last
      exact nomatch (arithmetic_eq_ok.mp last).2
    | some literal =>
      rw [amounts] at last
      cases last
      cases literal?_inv amounts with
      | int computed => exact (Option.filter_eq_some_iff.mp computed).2
  | neg allowed inner =>
    simp only [fold, Success.bind_eq_ok] at folded
    obtain ⟨inner', -, last⟩ := folded
    cases inner' with
    | int literal =>
      rw [foldNeg] at last
      split at last
      · next fits =>
        cases last
        exact fits
      · cases last
    | _ => cases last
  | compare op left right =>
    simp only [fold, Success.bind_eq_ok] at folded
    obtain ⟨_, -, _, -, last⟩ := folded
    cases last
  | call function arguments =>
    simp only [fold, Success.bind_eq_ok] at folded
    obtain ⟨_, -, last⟩ := folded
    cases last
  | _ => cases folded

omit [Named ν] in
theorem small_operands {op : Arithmetic} {left right : Expr ν negation}
    (small : ∀ literal, .int literal ∈ (arith op left right).parts → fitsInt32 literal = true) :
    (∀ literal, .int literal ∈ left.parts → fitsInt32 literal = true) ∧
      ∀ literal, .int literal ∈ right.parts → fitsInt32 literal = true := by
  constructor
  · intro literal inside
    exact small literal (by simp [parts, inside])
  · intro literal inside
    exact small literal (by simp [parts, inside])

/-- Whether the emitted instruction at the root of an expression would give what folding computes
there: a quotient of integers does not have to be rounded or is positive, and floats are computed in
the same way. -/
def RoundsAlike (w : World) : Expr ν negation → Prop
  | arith op left right =>
    (op = .div → ∀ a b, left.fold = .ok (.int a) → right.fold = .ok (.int b) →
      b = 0 ∨ b.toInt ∣ a.toInt ∨ (a.toInt < 0 ↔ b.toInt < 0)) ∧
    (∀ x y, left.fold = .ok (.float x) → right.fold = .ok (.float y) →
      w.arithmetic op x y = op.onBinary64 x y)
  | neg _ inner => ∀ x, inner.fold = .ok (.float x) → w.arithmetic .sub .zero x = x.neg
  | _ => True

/-- Folding computes what emitted instructions give, apart from quotients that are rounded
differently. -/
theorem foldsBy_emitted_iff {e : Expr ν negation}
    (small : ∀ literal, .int literal ∈ e.parts → fitsInt32 literal = true) :
    e.FoldsBy w.emitted ↔ e.RoundsAlike w := by
  cases e with
  | arith op left right =>
    obtain ⟨smallLeft, smallRight⟩ := small_operands small
    refine and_congr ⟨?_, ?_⟩ ?_
    · rintro given rfl a b isInt isInt'
      have fits := fitsInt32_of_fold smallLeft isInt
      by_cases proper : b = 0
      · exact .inl proper
      · by_cases divides : b.toInt ∣ a.toInt
        · exact .inr (.inl divides)
        · obtain ⟨value, computed, small⟩ := Arithmetic.onInt64_div_of_rounded fits proper divides
          have emitted := given a b value isInt isInt' (by simp [computed, small])
          exact .inr ((Arithmetic.onInt32_eq_some_iff fits (fitsInt32_of_fold smallRight isInt')
            small computed).mp emitted rfl)
    · intro alike a b value isInt isInt' computed
      obtain ⟨computed, fits⟩ := Option.filter_eq_some_iff.mp computed
      refine (Arithmetic.onInt32_eq_some_iff (fitsInt32_of_fold smallLeft isInt)
        (fitsInt32_of_fold smallRight isInt') fits computed).mpr ?_
      rintro rfl
      have proper := (Arithmetic.onInt64_eq_some_iff.mp computed).1 rfl
      exact (alike rfl a b isInt isInt').resolve_left proper
    · exact forall₄_congr fun x y _ _ => Option.some_inj
  | neg allowed inner =>
    have opposite (a : Int64) : (0 : Int32) - a.toInt32 = (-a).toInt32 := by simp
    constructor
    · intro given x isFloat
      exact Option.some_inj.mp (given.2 x isFloat)
    · intro alike
      refine ⟨fun a _ _ => congrArg some (opposite a), fun x isFloat => ?_⟩
      exact congrArg some (alike x isFloat)
  | _ => rfl

/-- In expressions whose literals have 32 bits, folding keeps the value that emitted code computes
exactly if no negative quotient of literals has to be rounded, and floats are computed as the
instructions do. This holds for every meaning of names and calls. -/
theorem fold_keeps_emitted_meaning_iff [Nonempty w.Store] {e : Expr ν negation}
    (kinded : e.isKinded = true)
    (small : ∀ literal, .int literal ∈ e.parts → fitsInt32 literal = true) :
    (∀ d ∈ e.parts, d.FoldKeepsMeaning w w.emitted place) ↔ ∀ d ∈ e.parts, d.RoundsAlike w := by
  rw [foldKeepsMeaning_iff kinded]
  refine forall₂_congr fun d inside => foldsBy_emitted_iff fun literal deeper => ?_
  exact small literal (parts_trans deeper inside)

end Meaning

/-- In `-7 / -2 * x` both operands of the quotient have the same sign. -/
theorem fold_keeps_emitted_meaning_iff_positive :
    let quotient : Expr Name True := .arith .div (.neg trivial (.int 7)) (.neg trivial (.int 2))
    let e : Expr Name True := .arith .mul quotient (.name ⟨"x", .integer⟩)
    e.isKinded = true ∧ ∀ (w : World) [Nonempty w.Store] (place : Name → Address),
      ∀ d ∈ e.parts, d.FoldKeepsMeaning w w.emitted place := by
  intro quotient e
  refine ⟨rfl, fun w _ place => (fold_keeps_emitted_meaning_iff rfl ?_).mpr ?_⟩
  · simp only [e, quotient, parts, List.mem_cons, List.mem_append]
    rintro literal (⟨⟨⟩⟩ | (⟨⟨⟩⟩ | (⟨⟨⟩⟩ | ⟨⟨⟩⟩ | ⟨⟨⟩⟩) | ⟨⟨⟩⟩ | ⟨⟨⟩⟩ | ⟨⟨⟩⟩) | ⟨⟨⟩⟩ | ⟨⟨⟩⟩) <;> rfl
  · have divided : quotient.RoundsAlike w := by
      constructor
      · rintro - a b ⟨⟩ ⟨⟩
        decide
      · rintro x y ⟨⟩
    have multiplied : e.RoundsAlike w := by
      constructor
      · rintro ⟨⟩
      · rintro x y - ⟨⟩
    have negated (value : Int64) : (.neg trivial (.int value) : Expr Name True).RoundsAlike w := by
      rintro x ⟨⟩
    have last : ∀ d ∈ ([] : List (Expr Name True)), d.RoundsAlike w := List.forall_mem_nil _
    simp only [e, quotient, parts, List.forall_mem_cons, List.forall_mem_append]
    exact ⟨multiplied, ⟨divided, ⟨negated 7, trivial, last⟩, negated 2, trivial, last⟩, trivial, last⟩

/-- Folding `-7 / 2` gives `-4`, the instructions give `-3`. -/
theorem fold_changes_negative_quotient :
    let e : Expr Name True := .arith .div (.neg trivial (.int 7)) (.int 2)
    e.kind = .integer ∧ e.isKinded = true ∧ e.fold = .ok (.int (-4)) ∧
      ∀ (w : World) (place : Name → Address),
        e.evaluate w w.emitted place = pure (.number ⟨.integer, (-3 : Int32)⟩) ∧
        (int (-4) : Expr Name True).evaluate w w.emitted place =
          pure (.number ⟨.integer, (-4 : Int32)⟩) := by
  refine ⟨rfl, rfl, rfl, fun w place => ⟨?_, rfl⟩⟩
  have quotient : w.emitted.apply w .div .integer (.number ⟨.integer, (-7 : Int32)⟩)
      (.number ⟨.integer, (2 : Int32)⟩) = some (.number ⟨.integer, (-3 : Int32)⟩) := by
    apply Rules.apply_eq_some_iff.mpr
    show Arithmetic.onInt32 .div (-7) 2 = some (-3)
    decide
  have opposite : (neg trivial (.int 7) : Expr Name True).evaluate w w.emitted place =
      pure (.number ⟨.integer, (-7 : Int32)⟩) := rfl
  rw [evaluate, opposite]
  exact congrArg w.given quotient

end Wabbit.Ast.Expr
