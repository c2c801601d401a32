import Wabbit.Ast.Scope
import Wabbit.Proofs.Success

/-!
What the resolution of names does with each kind of statement.
-/

namespace Wabbit.Ast.Stmt

variable {negation : Prop}

/-- All that resolving a statement can do: what it becomes, and the scope behind it. -/
inductive Resolves (scope : Scope) (depth : Depth) :
    Stmt Name False negation → Stmt Symbol False negation × Scope → Prop where
  | declare (name : Name) :
      Resolves scope depth (.declare name)
        (.declare (scope.declare depth name).1, (scope.declare depth name).2)
  | assign {name value symbol value'} (target : (scope.lookup name).result = .ok symbol)
      (own : (value.resolve scope).result = .ok value') :
      Resolves scope depth (.assign name value) (.assign symbol value', scope)
  | print {value value'} (own : (value.resolve scope).result = .ok value') :
      Resolves scope depth (.print value) (.print value', scope)
  | ifElse {condition condition' ifTrue ifTrue' ifFalse ifFalse' inner₁ inner₂}
      (test : (condition.resolve scope).result = .ok condition')
      (first : (resolveAll scope .nested ifTrue).result = .ok (ifTrue', inner₁))
      (second : (resolveAll (scope.leave inner₁) .nested ifFalse).result = .ok (ifFalse', inner₂)) :
      Resolves scope depth (.ifElse condition ifTrue ifFalse)
        (.ifElse condition' ifTrue' ifFalse', (scope.leave inner₁).leave inner₂)
  | loop {condition condition' body body' inner}
      (test : (condition.resolve scope).result = .ok condition')
      (round : (resolveAll scope .nested body).result = .ok (body', inner)) :
      Resolves scope depth (.loop condition body) (.loop condition' body', scope.leave inner)
  | function {name parameters body body' inner}
      (round : (resolveAll ({ (scope.declare depth name).2 with slots := [] }.declareAll parameters).2
        .nested body).result = .ok (body', inner)) :
      Resolves scope depth (.function name parameters body)
        (.function (scope.declare depth name).1
          ({ (scope.declare depth name).2 with slots := [] }.declareAll parameters).1 body',
          (scope.declare depth name).2)
  | ret {value value'} (own : (value.resolve scope).result = .ok value') :
      Resolves scope depth (.ret value) (.ret value', scope)
  | eval {value value'} (own : (value.resolve scope).result = .ok value') :
      Resolves scope depth (.eval value) (.eval value', scope)

theorem resolve_inv {s : Stmt Name False negation} {scope : Scope} {depth : Depth}
    {out : Stmt Symbol False negation × Scope} (done : (s.resolve scope depth).result = .ok out) :
    Resolves scope depth s out := by
  cases s with
  | declare name =>
    cases done
    exact .declare name
  | define allowed name value => exact allowed.elim
  | assign name value =>
    simp only [resolve, Success.result_bind_eq_ok] at done
    obtain ⟨symbol, target, value', own, last⟩ := done
    cases last
    exact .assign target own
  | print value =>
    simp only [resolve, Success.result_bind_eq_ok] at done
    obtain ⟨value', own, last⟩ := done
    cases last
    exact .print own
  | ifElse condition ifTrue ifFalse =>
    simp only [resolve, Success.result_bind_eq_ok, Prod.exists] at done
    obtain ⟨condition', test, ifTrue', inner₁, first, ifFalse', inner₂, second, last⟩ := done
    cases last
    exact .ifElse test first second
  | loop condition body =>
    simp only [resolve, Success.result_bind_eq_ok, Prod.exists] at done
    obtain ⟨condition', test, body', inner, round, last⟩ := done
    cases last
    exact .loop test round
  | function name parameters body =>
    simp only [resolve, Success.result_bind_eq_ok, Prod.exists] at done
    obtain ⟨body', inner, round, last⟩ := done
    cases last
    exact .function round
  | ret value =>
    simp only [resolve, Success.result_bind_eq_ok] at done
    obtain ⟨value', own, last⟩ := done
    cases last
    exact .ret own
  | eval value =>
    simp only [resolve, Success.result_bind_eq_ok] at done
    obtain ⟨value', own, last⟩ := done
    cases last
    exact .eval own

section Lists

variable {scope : Scope} {depth : Depth} {out : List (Stmt Symbol False negation) × Scope}

theorem resolveAll_cons {s : Stmt Name False negation} {rest : List (Stmt Name False negation)}
    (done : (resolveAll scope depth (s :: rest)).result = .ok out) :
    ∃ s' rest' middle behind, (s.resolve scope depth).result = .ok (s', middle) ∧
      (resolveAll middle depth rest).result = .ok (rest', behind) ∧ out = (s' :: rest', behind) := by
  simp only [resolveAll, Success.result_bind_eq_ok, Prod.exists] at done
  obtain ⟨s', middle, own, rest', behind, others, last⟩ := done
  cases last
  exact ⟨s', rest', middle, behind, own, others, rfl⟩

theorem resolveAll_singleton {s : Stmt Name False negation}
    (done : (resolveAll scope depth [s]).result = .ok out) :
    ∃ s' behind, Resolves scope depth s (s', behind) ∧ out = ([s'], behind) := by
  obtain ⟨s', rest', middle, behind, own, others, rfl⟩ := resolveAll_cons done
  cases others
  exact ⟨s', middle, resolve_inv own, rfl⟩

/-- Statements are resolved one after the other. -/
theorem resolveAll_append {front back : List (Stmt Name False negation)}
    (done : (resolveAll scope depth (front ++ back)).result = .ok out) :
    ∃ front' back' middle behind, front'.length = front.length ∧
      (resolveAll scope depth front).result = .ok (front', middle) ∧
      (resolveAll middle depth back).result = .ok (back', behind) ∧
      out = (front' ++ back', behind) := by
  induction front generalizing scope out with
  | nil => exact ⟨[], out.1, scope, out.2, rfl, rfl, done, rfl⟩
  | cons s rest ih =>
    obtain ⟨s', rest', scope', behind, own, others, rfl⟩ := resolveAll_cons done
    obtain ⟨front', back', middle, behind', same, first, second, parts⟩ := ih others
    cases parts
    refine ⟨s' :: front', back', middle, behind, congrArg (· + 1) same, ?_, second, rfl⟩
    simp only [resolveAll, Success.result_bind_eq_ok, Prod.exists]
    exact ⟨s', scope', own, front', middle, first, rfl⟩

end Lists

end Wabbit.Ast.Stmt
