import Wabbit.Proofs.Folding.Expressions
import Wabbit.Proofs.Kinds.Statements

/-!
Folding whole programs. Main statement: folding succeeds on every program whose operators have
operands of one kind, changes nothing but expressions, of which it keeps the kinds, and leaves its own
results alone.
-/

namespace Wabbit.Ast

variable {ν : Type} {initializers negation : Prop}

namespace Stmt

variable {f : Expr ν negation → Expr ν negation}

mutual

theorem mapExprs_mapExprs (f g : Expr ν negation → Expr ν negation)
    (s : Stmt ν initializers negation) : (s.mapExprs g).mapExprs f = s.mapExprs (f ∘ g) := by
  cases s with
  | ifElse condition ifTrue ifFalse =>
    simp only [mapExprs, mapAllExprs_mapAllExprs f g ifTrue, mapAllExprs_mapAllExprs f g ifFalse,
      Condition.map, Function.comp_apply]
  | loop condition body =>
    simp only [mapExprs, mapAllExprs_mapAllExprs f g body, Condition.map, Function.comp_apply]
  | function name parameters body => simp only [mapExprs, mapAllExprs_mapAllExprs f g body]
  | _ => rfl

theorem mapAllExprs_mapAllExprs (f g : Expr ν negation → Expr ν negation)
    (stmts : List (Stmt ν initializers negation)) :
    mapAllExprs f (mapAllExprs g stmts) = mapAllExprs (f ∘ g) stmts := by
  cases stmts with
  | nil => rfl
  | cons s rest =>
    simp only [mapAllExprs, mapExprs_mapExprs f g s, mapAllExprs_mapAllExprs f g rest]

end

variable [Named ν]

mutual

theorem exprs_mapExprs (contraction : Expr.IsContraction f) (s : Stmt ν initializers negation) :
    (s.mapExprs f).exprs = s.exprs.map f := by
  cases s with
  | ifElse condition ifTrue ifFalse =>
    simp only [mapExprs, exprs, List.map_cons, List.map_append, Condition.map, Condition.toExpr,
      contraction.compare, allExprs_mapAllExprs contraction ifTrue,
      allExprs_mapAllExprs contraction ifFalse]
  | loop condition body =>
    simp only [mapExprs, exprs, List.map_cons, Condition.map, Condition.toExpr, contraction.compare,
      allExprs_mapAllExprs contraction body]
  | function name parameters body => exact allExprs_mapAllExprs contraction body
  | _ => rfl

/-- The expressions that stand in changed statements are the changed ones. -/
theorem allExprs_mapAllExprs (contraction : Expr.IsContraction f)
    (stmts : List (Stmt ν initializers negation)) :
    allExprs (mapAllExprs f stmts) = (allExprs stmts).map f := by
  cases stmts with
  | nil => rfl
  | cons s rest =>
    simp only [mapAllExprs, allExprs, List.map_append, exprs_mapExprs contraction s,
      allExprs_mapAllExprs contraction rest]

end

end Stmt

/-! ### Programs -/

variable [Named ν]

/-- Folding a program whose operators have operands of one kind succeeds. What comes out is the program
with contracted expressions and conditions, in which every operator on literals has a reason to stay,
and it is folded to itself. -/
theorem Script.fold_contracts {script : Script ν initializers negation}
    (kinded : ∀ e ∈ Stmt.allExprs script, e.isKinded = true) :
    ∃ script', script.fold = .ok script' ∧ script'.fold = .ok script' ∧
      (∀ e ∈ Stmt.allExprs script', ∀ d ∈ e.parts, d.IsNormal) ∧
      ∃ f : Expr ν negation → Expr ν negation, Expr.IsContraction f ∧
        script' = Stmt.mapAllExprs f script ∧
        ∀ condition : Condition ν negation, (condition.map f).kind = condition.kind := by
  have contraction : Expr.IsContraction (Expr.folded : Expr ν negation → Expr ν negation) :=
    Expr.folded_isContraction
  have exprs := Stmt.allExprs_mapAllExprs contraction script
  have again : Stmt.mapAllExprs Expr.folded (Stmt.mapAllExprs Expr.folded script) =
      Stmt.mapAllExprs Expr.folded script := by
    rw [Stmt.mapAllExprs_mapAllExprs]
    exact congrArg (Stmt.mapAllExprs · script) (funext Expr.folded_folded)
  have kinded' : ∀ e ∈ Stmt.allExprs (Stmt.mapAllExprs Expr.folded script), e.isKinded = true := by
    rw [exprs, List.forall_mem_map]
    exact fun e member => Expr.isKinded_folded (kinded e member)
  refine ⟨Stmt.mapAllExprs Expr.folded script, ?_, ?_, ?_, Expr.folded, contraction, rfl, ?_⟩
  · exact Stmt.foldAll_eq_ok_iff.mpr ⟨kinded, rfl⟩
  · exact Stmt.foldAll_eq_ok_iff.mpr ⟨kinded', again.symm⟩
  · rw [exprs, List.forall_mem_map]
    exact fun e _ => e.folded_isNormal
  · exact fun condition => contraction.kind condition.toExpr

/-- A loop in a function: a quotient by what turns out to be zero and a product that does not fit stay,
and what stands around them is folded. -/
theorem Script.fold_contracts_loop :
    let x : Name := ⟨"x", .integer⟩
    let zero : Expr Name True := .arith .sub (.int 2) (.int 2)
    let test : Condition Name True := ⟨.less, .neg trivial (.int 1), .arith .div (.int 1) zero⟩
    let result : Expr Name True := .arith .add (.name x) (.arith .mul (.int 65536) (.int 65536))
    let script : Parsed :=
      [.function ⟨"f", .integer⟩ [x] [.loop test [.ret result]],
        .print (.neg trivial (.arith .add (.float .zero) (.float .zero)))]
    (∀ e ∈ Stmt.allExprs script, e.isKinded = true) ∧
      ∃ script', script.fold = .ok script' ∧ script'.fold = .ok script' ∧
        (∀ e ∈ Stmt.allExprs script', ∀ d ∈ e.parts, d.IsNormal) ∧
        ∃ f : Expr Name True → Expr Name True, Expr.IsContraction f ∧
          script' = Stmt.mapAllExprs f script ∧
          ∀ condition : Condition Name True, (condition.map f).kind = condition.kind := by
  intro x zero test result script
  have kinded : ∀ e ∈ Stmt.allExprs script, e.isKinded = true := by decide
  exact ⟨kinded, Script.fold_contracts kinded⟩

end Wabbit.Ast
