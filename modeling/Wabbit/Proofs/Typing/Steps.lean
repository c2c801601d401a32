import Wabbit.Compiler
import Wabbit.Proofs.Kinds.Expressions

/-!
What the type checker does with each kind of expression and statement.
-/

namespace Wabbit

open Ast

namespace Typing

private theorem lookup_eq_ok {context : Context} {text : String} {span : Span} {name : Name} :
    context.lookup text span = .ok name ↔
      ∃ kind, context.kinds.lookup text = some kind ∧ name = ⟨text, kind⟩ := by
  unfold Context.lookup
  split <;> simp [*, eq_comm]

theorem checkReturns_eq_ok {returns : List (Kind × Span)} {expected : Kind} {u : Unit} :
    checkReturns returns expected = .ok u ↔ ∀ returned ∈ returns, returned.1 = expected := by
  unfold checkReturns
  split
  · rename_i found span first
    have other : found ≠ expected := by simpa using List.find?_some first
    simp only [reduceCtorEq, false_iff]
    exact fun all => other (all _ (List.mem_of_find?_eq_some first))
  · rename_i none
    simpa using none

/-! ### Expressions -/

/-- All that giving an expression its kinds can do. -/
inductive ChecksExpr (context : Context) : Source.Expr → Expr Name True → Prop where
  | int {value span} : ChecksExpr context (.int value span) (.int value)
  | float {value span} : ChecksExpr context (.float value span) (.float value)
  | var {text kind span} (known : context.kinds.lookup text = some kind) :
      ChecksExpr context (.var text span) (.name ⟨text, kind⟩)
  | neg {inner inner' span} (own : checkExpr context inner = .ok inner') :
      ChecksExpr context (.neg inner span) (.neg trivial inner')
  | arith {op left left' right right' span} (first : checkExpr context left = .ok left')
      (second : checkExpr context right = .ok right') (same : left'.kind = right'.kind) :
      ChecksExpr context (.binary (.arithmetic op) left right span) (.arith op left' right')
  | compare {op left left' right right' span} (first : checkExpr context left = .ok left')
      (second : checkExpr context right = .ok right') :
      ChecksExpr context (.binary (.compare op) left right span) (.compare op left' right')
  | call {function kind arguments arguments' span}
      (others : List.Forall₂ (checkExpr context · = .ok ·) arguments arguments')
      (signature : context.signatures.lookup function = some (arguments'.map Expr.kind))
      (known : context.kinds.lookup function = some kind) :
      ChecksExpr context (.call function arguments span) (.call ⟨function, kind⟩ arguments')

/-- As many arguments as parameters are all checked, and have the kinds of the parameters. -/
theorem checkArguments_inv {context : Context} {function : String} {arguments : List Source.Expr}
    {parameters : List Kind} {arguments' : List (Expr Name True)}
    (done : checkArguments context function arguments parameters = .ok arguments')
    (counted : parameters.length = arguments.length) :
    List.Forall₂ (checkExpr context · = .ok ·) arguments arguments' ∧
      arguments'.map Expr.kind = parameters := by
  induction arguments generalizing parameters arguments' with
  | nil =>
    obtain rfl := List.length_eq_zero_iff.mp counted
    cases done
    exact ⟨.nil, rfl⟩
  | cons e rest ih =>
    cases parameters with
    | nil => cases counted
    | cons expected kinds =>
      simp only [checkArguments, Success.bind_eq_ok] at done
      obtain ⟨e', own, done⟩ := done
      split at done
      · cases done
      · rename_i same
        obtain ⟨rest', others, last⟩ := Success.bind_eq_ok.mp done
        cases last
        obtain ⟨checked, rest_kinds⟩ := ih others (Nat.succ.inj counted)
        exact ⟨.cons own checked, congrArg₂ _ (not_not.mp same) rest_kinds⟩

theorem checkExpr_inv {context : Context} {e : Source.Expr} {e' : Expr Name True}
    (done : checkExpr context e = .ok e') : ChecksExpr context e e' := by
  cases e with
  | int value span =>
    cases done
    exact .int
  | float value span =>
    cases done
    exact .float
  | var text span =>
    simp only [checkExpr, Success.bind_eq_ok, lookup_eq_ok] at done
    obtain ⟨name, ⟨kind, known, rfl⟩, last⟩ := done
    cases last
    exact .var known
  | neg inner span =>
    simp only [checkExpr, Success.bind_eq_ok] at done
    obtain ⟨inner', own, last⟩ := done
    cases last
    exact .neg own
  | binary op left right span =>
    simp only [checkExpr, Success.bind_eq_ok] at done
    obtain ⟨left', first, right', second, last⟩ := done
    cases op with
    | arithmetic op =>
      obtain ⟨same, rfl⟩ := Expr.arithmetic_eq_ok.mp (Success.mapError_eq_ok.mp last)
      exact .arith first second same
    | compare op =>
      cases last
      exact .compare first second
  | call function arguments span =>
    rw [checkExpr] at done
    split at done
    · rename_i parameters signature
      split at done
      · cases done
      · rename_i counted
        simp only [Success.bind_eq_ok, lookup_eq_ok] at done
        obtain ⟨arguments', checked, name, ⟨kind, known, rfl⟩, last⟩ := done
        cases last
        obtain ⟨others, rfl⟩ := checkArguments_inv checked (not_not.mp counted)
        exact .call others signature known
    · cases done

/-- A condition is checked like any other comparison. -/
theorem checkCondition_inv {context : Context} {e : Source.Expr} {condition : Condition Name True}
    (done : checkCondition context e = .ok condition) :
    checkExpr context e = .ok condition.toExpr := by
  unfold checkCondition at done
  split at done
  · simp only [Success.bind_eq_ok] at done
    obtain ⟨left', first, right', second, last⟩ := done
    cases last
    simp only [checkExpr, Success.bind_eq_ok]
    exact ⟨left', first, right', second, rfl⟩
  · cases done

/-! ### Statements -/

/-- All that giving a statement its kinds can do: what it becomes, and the context behind it. -/
inductive ChecksStmt (context : Context) : Source.Stmt → Stmt Name True True × Context → Prop where
  | declare {ident kind span} :
      ChecksStmt context (.declare ident kind span)
        (.declare ⟨ident.name, kind⟩, context.declare ⟨ident.name, kind⟩)
  | define {ident annotation value value' span} (own : checkExpr context value = .ok value')
      (fits : ∀ kind ∈ annotation, kind = value'.kind) :
      ChecksStmt context (.define ident annotation value span)
        (.define trivial ⟨ident.name, value'.kind⟩ value', context.declare ⟨ident.name, value'.kind⟩)
  /-- The first assignment to a name that is not known gives it its kind. -/
  | introduce {ident value value' span} (own : checkExpr context value = .ok value')
      (unknown : context.kinds.lookup ident.name = none) :
      ChecksStmt context (.assign ident value span)
        (.assign ⟨ident.name, value'.kind⟩ value', context.declare ⟨ident.name, value'.kind⟩)
  | assign {ident value value' span} (own : checkExpr context value = .ok value')
      (known : context.kinds.lookup ident.name = some value'.kind) :
      ChecksStmt context (.assign ident value span)
        (.assign ⟨ident.name, value'.kind⟩ value', context)
  | print {value value' span} (own : checkExpr context value = .ok value') :
      ChecksStmt context (.print value span) (.print value', context)
  | ifElse {test condition ifTrue ifTrue' ifFalse ifFalse' middle behind span}
      (tested : checkExpr context test = .ok condition.toExpr)
      (first : checkBlock context ifTrue = .ok (ifTrue', middle))
      (second : checkBlock middle ifFalse = .ok (ifFalse', behind)) :
      ChecksStmt context (.ifElse test ifTrue ifFalse span)
        (.ifElse condition ifTrue' ifFalse', behind)
  | loop {test condition body body' behind span}
      (tested : checkExpr context test = .ok condition.toExpr)
      (round : checkBlock context body = .ok (body', behind)) :
      ChecksStmt context (.loop test body span) (.loop condition body', behind)
  | function {ident parameters result body body' inner span}
      (round : checkBlock (context.enter ident.name parameters result) body = .ok (body', inner))
      (returned : ∀ returned ∈ inner.returns, returned.1 = resultKind result inner.returns) :
      ChecksStmt context (.function ident parameters result body span)
        (.function ⟨ident.name, resultKind result inner.returns⟩
          (parameters.map fun p => ⟨p.1, p.2⟩) body',
          { inner.declare ⟨ident.name, resultKind result inner.returns⟩ with
            returns := context.returns })
  | ret {value value' span} (own : checkExpr context value = .ok value') :
      ChecksStmt context (.ret value span)
        (.ret value', { context with returns := context.returns ++ [(value'.kind, value.span)] })
  | eval {value value' span} (own : checkExpr context value = .ok value') :
      ChecksStmt context (.eval value span) (.eval value', context)

theorem checkStmt_inv {context : Context} {s : Source.Stmt} {out : Stmt Name True True × Context}
    (done : checkStmt context s = .ok out) : ChecksStmt context s out := by
  cases s with
  | declare ident kind span =>
    cases done
    exact .declare
  | define ident annotation value span =>
    simp only [checkStmt, Success.bind_eq_ok] at done
    obtain ⟨value', own, done⟩ := done
    split at done
    · cases done
    · rename_i fits
      cases done
      exact .define own (by simpa [Option.filter_eq_none_iff] using fits)
  | assign ident value span =>
    simp only [checkStmt, Success.bind_eq_ok] at done
    obtain ⟨value', own, done⟩ := done
    split at done
    · rename_i unknown
      cases done
      exact .introduce own unknown
    · rename_i expected known
      split at done
      · cases done
      · rename_i same
        obtain rfl := not_not.mp same
        cases done
        exact .assign own known
  | print value span =>
    simp only [checkStmt, Success.bind_eq_ok] at done
    obtain ⟨value', own, last⟩ := done
    cases last
    exact .print own
  | ifElse test ifTrue ifFalse span =>
    simp only [checkStmt, Success.bind_eq_ok, Prod.exists] at done
    obtain ⟨condition, tested, ifTrue', middle, first, ifFalse', behind, second, last⟩ := done
    cases last
    exact .ifElse (checkCondition_inv tested) first second
  | loop test body span =>
    simp only [checkStmt, Success.bind_eq_ok, Prod.exists] at done
    obtain ⟨condition, tested, body', behind, round, last⟩ := done
    cases last
    exact .loop (checkCondition_inv tested) round
  | function ident parameters result body span =>
    simp only [checkStmt, Success.bind_eq_ok, Prod.exists] at done
    obtain ⟨body', inner, round, _, checked, last⟩ := done
    cases last
    exact .function round (checkReturns_eq_ok.mp checked)
  | ret value span =>
    simp only [checkStmt, Success.bind_eq_ok] at done
    obtain ⟨value', own, last⟩ := done
    cases last
    exact .ret own
  | eval value span =>
    simp only [checkStmt, Success.bind_eq_ok] at done
    obtain ⟨value', own, last⟩ := done
    cases last
    exact .eval own

theorem checkBlock_cons {context : Context} {s : Source.Stmt} {rest : List Source.Stmt}
    {out : List (Stmt Name True True) × Context} (done : checkBlock context (s :: rest) = .ok out) :
    ∃ s' rest' middle behind, checkStmt context s = .ok (s', middle) ∧
      checkBlock middle rest = .ok (rest', behind) ∧ out = (s' :: rest', behind) := by
  simp only [checkBlock, Success.bind_eq_ok, Prod.exists] at done
  obtain ⟨s', middle, own, rest', behind, others, last⟩ := done
  cases last
  exact ⟨s', rest', middle, behind, own, others, rfl⟩

/-- A program is accepted if its statements are, and all that stands loose returns integers. -/
theorem check_eq_ok {program : List Source.Stmt} {script : Parsed} :
    check program = .ok script ↔ ∃ context, checkBlock {} program = .ok (script, context) ∧
      ∀ returned ∈ context.returns, returned.1 = .integer := by
  simp only [check, Success.bind_eq_ok, Prod.exists, checkReturns_eq_ok, Success.pure_eq_ok]
  constructor
  · rintro ⟨statements, context, checked, _, returned, rfl⟩
    exact ⟨context, checked, returned⟩
  · rintro ⟨context, checked, returned⟩
    exact ⟨script, context, checked, (), returned, rfl⟩

end Typing

theorem frontEnd_eq_ok {source : String} {script : Parsed} :
    frontEnd source = .ok script ↔
      ∃ program, Source.read source = .ok program ∧ Typing.check program = .ok script := by
  simp only [frontEnd, Success.bind_eq_ok, Success.mapError_eq_ok]

end Wabbit
