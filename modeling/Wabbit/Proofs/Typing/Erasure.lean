import Wabbit.Proofs.Grammar.Bare
import Wabbit.Proofs.Typing.Steps

/-!
Typed trees without their kinds. The type checker adds kinds to a tree and changes nothing else, so
what is left is the tree that was checked.
-/

namespace Wabbit

namespace Source

mutual

/-- The statement with empty spans, and without the kinds that may be left out. -/
def Stmt.unannotated : Stmt → Stmt
  | .declare name kind _ => .declare name.bare kind {}
  | .define name _ value _ => .define name.bare none value.bare {}
  | .assign name value _ => .assign name.bare value.bare {}
  | .print value _ => .print value.bare {}
  | .ifElse condition ifTrue ifFalse _ =>
    .ifElse condition.bare (Stmt.allUnannotated ifTrue) (Stmt.allUnannotated ifFalse) {}
  | .loop condition body _ => .loop condition.bare (Stmt.allUnannotated body) {}
  | .function name parameters _ body _ =>
    .function name.bare parameters none (Stmt.allUnannotated body) {}
  | .ret value _ => .ret value.bare {}
  | .eval value _ => .eval value.bare {}

def Stmt.allUnannotated : List Stmt → List Stmt
  | [] => []
  | s :: rest => s.unannotated :: Stmt.allUnannotated rest

end

end Source

namespace Ast

open Source (Ident)

mutual

/-- The typed expression without its kinds, as a source tree with empty spans. -/
def Expr.erased : Expr Name True → Source.Expr
  | .int value => .int value {}
  | .float value => .float value {}
  | .name n => .var n.text {}
  | .arith op left right => .binary (.arithmetic op) left.erased right.erased {}
  | .compare op left right => .binary (.compare op) left.erased right.erased {}
  | .call function arguments => .call function.text (Expr.allErased arguments) {}
  | .neg _ inner => .neg inner.erased {}

def Expr.allErased : List (Expr Name True) → List Source.Expr
  | [] => []
  | e :: rest => e.erased :: Expr.allErased rest

end

/-- The name without its kind. -/
def Name.erased (name : Name) : Ident := ⟨name.text, {}⟩

mutual

/-- The typed statement without the kinds that it was given, as a source tree with empty spans. The
kinds of parameters and of declarations without a value are not given but written down. -/
def Stmt.erased : Stmt Name True True → Source.Stmt
  | .declare name => .declare name.erased name.kind {}
  | .define _ name value => .define name.erased none value.erased {}
  | .assign name value => .assign name.erased value.erased {}
  | .print value => .print value.erased {}
  | .ifElse condition ifTrue ifFalse =>
    .ifElse condition.toExpr.erased (Stmt.allErased ifTrue) (Stmt.allErased ifFalse) {}
  | .loop condition body => .loop condition.toExpr.erased (Stmt.allErased body) {}
  | .function name parameters body =>
    .function name.erased (parameters.map fun p => (p.text, p.kind)) none (Stmt.allErased body) {}
  | .ret value => .ret value.erased {}
  | .eval value => .eval value.erased {}

def Stmt.allErased : List (Stmt Name True True) → List Source.Stmt
  | [] => []
  | s :: rest => s.erased :: Stmt.allErased rest

end

end Ast

namespace Typing

open Ast

mutual

theorem erased_checkExpr {context : Context} {e : Source.Expr} {e' : Expr Name True}
    (done : checkExpr context e = .ok e') : e'.erased = e.bare := by
  cases e with
  | neg inner span =>
    cases checkExpr_inv done with
    | neg own => rw [Expr.erased, erased_checkExpr own, Source.Expr.bare]
  | binary op left right span =>
    cases checkExpr_inv done with
    | arith first second same | compare first second =>
      rw [Expr.erased, erased_checkExpr first, erased_checkExpr second, Source.Expr.bare]
  | call function arguments span =>
    cases checkExpr_inv done with
    | call others signature known => rw [Expr.erased, erased_checkExprs others, Source.Expr.bare]
  | _ =>
    cases checkExpr_inv done
    rfl

theorem erased_checkExprs {context : Context} {es : List Source.Expr}
    {es' : List (Expr Name True)} (done : List.Forall₂ (checkExpr context · = .ok ·) es es') :
    Expr.allErased es' = Source.Expr.bareAll es := by
  cases es with
  | nil =>
    cases done
    rfl
  | cons e rest =>
    cases done with
    | cons own others =>
      rw [Expr.allErased, erased_checkExpr own, erased_checkExprs others, Source.Expr.bareAll]

end

theorem erased_parameters (parameters : List (String × Kind)) :
    (parameters.map fun p => (⟨p.1, p.2⟩ : Name)).map (fun p => (p.text, p.kind)) = parameters :=
  List.map_map.trans (List.map_id parameters)

mutual

/-- Giving a statement its kinds changes nothing else. -/
theorem erased_checkStmt {s : Source.Stmt} {context : Context} {out : Stmt Name True True × Context}
    (done : checkStmt context s = .ok out) : out.1.erased = s.unannotated := by
  cases s with
  | declare ident kind span =>
    cases checkStmt_inv done
    rfl
  | define ident annotation value span =>
    cases checkStmt_inv done with
    | define own fits =>
      rw [Stmt.erased, erased_checkExpr own]
      rfl
  | assign ident value span =>
    cases checkStmt_inv done with
    | introduce own unknown | assign own known =>
      rw [Stmt.erased, erased_checkExpr own]
      rfl
  | print value span =>
    cases checkStmt_inv done with
    | print own => rw [Stmt.erased, erased_checkExpr own, Source.Stmt.unannotated]
  | ifElse test ifTrue ifFalse span =>
    cases checkStmt_inv done with
    | ifElse tested first second =>
      rw [Stmt.erased, erased_checkExpr tested, erased_checkBlock first, erased_checkBlock second,
        Source.Stmt.unannotated]
  | loop test body span =>
    cases checkStmt_inv done with
    | loop tested round =>
      rw [Stmt.erased, erased_checkExpr tested, erased_checkBlock round, Source.Stmt.unannotated]
  | function ident parameters result body span =>
    cases checkStmt_inv done with
    | function round returned =>
      rw [Stmt.erased, erased_checkBlock round, erased_parameters]
      rfl
  | ret value span =>
    cases checkStmt_inv done with
    | ret own => rw [Stmt.erased, erased_checkExpr own, Source.Stmt.unannotated]
  | eval value span =>
    cases checkStmt_inv done with
    | eval own => rw [Stmt.erased, erased_checkExpr own, Source.Stmt.unannotated]

theorem erased_checkBlock {stmts : List Source.Stmt} {context : Context}
    {out : List (Stmt Name True True) × Context} (done : checkBlock context stmts = .ok out) :
    Stmt.allErased out.1 = Source.Stmt.allUnannotated stmts := by
  cases stmts with
  | nil =>
    cases done
    rfl
  | cons s rest =>
    obtain ⟨s', rest', middle, behind, own, others, rfl⟩ := checkBlock_cons done
    rw [Stmt.allErased, erased_checkStmt own, erased_checkBlock others,
      Source.Stmt.allUnannotated]

end

end Typing

end Wabbit
