import Wabbit.Ast.Splitting
import Wabbit.Proofs.Typing.Steps

/-!
Statements that are well kinded: operators have operands of one kind, assignments store values of the
kind of their target, and functions return values of their own kind. The type checker gives no others,
and folding and the splitting of declarations keep them so.
-/

namespace Wabbit

namespace Ast

/-- A kind stands for anything that has it. -/
instance : Named Kind := ⟨Kind.name, id, fun _ => none⟩

/-- The condition with other names. -/
def Condition.rename {ν μ : Type} {negation : Prop} (f : ν → μ) (condition : Condition ν negation) :
    Condition μ negation :=
  ⟨condition.op, condition.left.rename f, condition.right.rename f⟩

namespace Stmt

variable {ν μ : Type} {initializers negation : Prop}

mutual

/-- The statement with other names. -/
def rename (f : ν → μ) : Stmt ν initializers negation → Stmt μ initializers negation
  | declare name => .declare (f name)
  | define allowed name value => .define allowed (f name) (value.rename f)
  | assign name value => .assign (f name) (value.rename f)
  | print value => .print (value.rename f)
  | ifElse condition ifTrue ifFalse =>
    .ifElse (condition.rename f) (renameAll f ifTrue) (renameAll f ifFalse)
  | loop condition body => .loop (condition.rename f) (renameAll f body)
  | function name parameters body => .function (f name) (parameters.map f) (renameAll f body)
  | ret value => .ret (value.rename f)
  | eval value => .eval (value.rename f)

def renameAll (f : ν → μ) : List (Stmt ν initializers negation) → List (Stmt μ initializers negation)
  | [] => []
  | s :: rest => s.rename f :: renameAll f rest

end

variable [Named ν] [Named μ]

mutual

/-- Whether all operators in a statement have operands of one kind, all assigned values have the kind
of their target, and all returned values the kind of their function, which is given for the returns
that do not stand in a function inside the statement. -/
def isKinded (result : Kind) : Stmt ν initializers negation → Bool
  | declare _ => true
  | define _ name value | assign name value => value.isKinded && value.kind = Named.kind name
  | print value | eval value => value.isKinded
  | ifElse condition ifTrue ifFalse =>
    condition.toExpr.isKinded && allKinded result ifTrue && allKinded result ifFalse
  | loop condition body => condition.toExpr.isKinded && allKinded result body
  | function name _ body => allKinded (Named.kind name) body
  | ret value => value.isKinded && value.kind = result

def allKinded (result : Kind) : List (Stmt ν initializers negation) → Bool
  | [] => true
  | s :: rest => s.isKinded result && allKinded result rest

end

mutual

/-- The expressions that stand in a statement at whatever depth, the conditions among them. -/
def exprs : Stmt ν initializers negation → List (Expr ν negation)
  | declare _ => []
  | define _ _ value | assign _ value | print value | ret value | eval value => [value]
  | ifElse condition ifTrue ifFalse => condition.toExpr :: (allExprs ifTrue ++ allExprs ifFalse)
  | loop condition body => condition.toExpr :: allExprs body
  | function _ _ body => allExprs body

def allExprs : List (Stmt ν initializers negation) → List (Expr ν negation)
  | [] => []
  | s :: rest => s.exprs ++ allExprs rest

end

mutual

theorem isKinded_exprs {s : Stmt ν initializers negation} {result : Kind}
    (kinded : s.isKinded result = true) : ∀ e ∈ s.exprs, e.isKinded = true := by
  cases s with
  | declare name => exact nofun
  | define allowed name value | assign name value | ret value =>
    simp only [isKinded, Bool.and_eq_true] at kinded
    exact List.forall_mem_singleton.mpr kinded.1
  | print value | eval value => exact List.forall_mem_singleton.mpr kinded
  | ifElse condition ifTrue ifFalse =>
    simp only [isKinded, Bool.and_eq_true] at kinded
    rw [exprs, List.forall_mem_cons, List.forall_mem_append]
    exact ⟨kinded.1.1, isKinded_allExprs kinded.1.2, isKinded_allExprs kinded.2⟩
  | loop condition body =>
    simp only [isKinded, Bool.and_eq_true] at kinded
    rw [exprs, List.forall_mem_cons]
    exact ⟨kinded.1, isKinded_allExprs kinded.2⟩
  | function name parameters body => exact isKinded_allExprs kinded

theorem isKinded_allExprs {stmts : List (Stmt ν initializers negation)} {result : Kind}
    (kinded : allKinded result stmts = true) : ∀ e ∈ allExprs stmts, e.isKinded = true := by
  cases stmts with
  | nil => exact nofun
  | cons s rest =>
    simp only [allKinded, Bool.and_eq_true] at kinded
    rw [allExprs, List.forall_mem_append]
    exact ⟨isKinded_exprs kinded.1, isKinded_allExprs kinded.2⟩

end

theorem allKinded_append (result : Kind) (front back : List (Stmt ν initializers negation)) :
    allKinded result (front ++ back) = (allKinded result front && allKinded result back) := by
  induction front with
  | nil => rfl
  | cons s rest ih => simp [allKinded, ih, Bool.and_assoc]

section Renaming

variable {f : ν → μ}

mutual

/-- Whether a statement is well kinded depends on the kinds of its names only. -/
theorem isKinded_rename (same : ∀ n, Named.kind (f n) = Named.kind n) (result : Kind)
    (s : Stmt ν initializers negation) : (s.rename f).isKinded result = s.isKinded result := by
  have expr (e : Expr ν negation) := Expr.isKinded_rename (e := e) fun n _ => same n
  have kind (e : Expr ν negation) := Expr.kind_rename (e := e) fun n _ => same n
  have condition (c : Condition ν negation) : (c.rename f).toExpr.isKinded = c.toExpr.isKinded :=
    expr c.toExpr
  cases s with
  | ifElse test ifTrue ifFalse =>
    simp only [rename, isKinded, condition, allKinded_renameAll same result ifTrue,
      allKinded_renameAll same result ifFalse]
  | loop test body => simp only [rename, isKinded, condition, allKinded_renameAll same result body]
  | function name parameters body =>
    simp only [rename, isKinded, same, allKinded_renameAll same (Named.kind name) body]
  | _ => simp only [rename, isKinded, expr, kind, same]

theorem allKinded_renameAll (same : ∀ n, Named.kind (f n) = Named.kind n) (result : Kind)
    (stmts : List (Stmt ν initializers negation)) :
    allKinded result (renameAll f stmts) = allKinded result stmts := by
  cases stmts with
  | nil => rfl
  | cons s rest =>
    simp only [renameAll, allKinded, isKinded_rename same result s,
      allKinded_renameAll same result rest]

end

end Renaming

mutual

/-- Taking declarations apart keeps statements well kinded. -/
theorem allKinded_split (result : Kind) (s : Stmt ν initializers negation) :
    allKinded result s.split = s.isKinded result := by
  cases s with
  | ifElse condition ifTrue ifFalse =>
    simp [split, allKinded, isKinded, allKinded_splitAll result ifTrue,
      allKinded_splitAll result ifFalse]
  | loop condition body => simp [split, allKinded, isKinded, allKinded_splitAll result body]
  | function name parameters body =>
    simp [split, allKinded, isKinded, allKinded_splitAll (Named.kind name) body]
  | _ => simp [split, allKinded, isKinded]

theorem allKinded_splitAll (result : Kind) (stmts : List (Stmt ν initializers negation)) :
    allKinded result (splitAll stmts) = allKinded result stmts := by
  cases stmts with
  | nil => rfl
  | cons s rest =>
    rw [splitAll, allKinded_append, allKinded_split result s, allKinded_splitAll result rest,
      allKinded]

end

end Stmt

/-! ### Folding -/

section Folding

variable {ν : Type} {initializers negation : Prop}

/-- The condition with other operands. -/
def Condition.map (f : Expr ν negation → Expr ν negation) (condition : Condition ν negation) :
    Condition ν negation :=
  ⟨condition.op, f condition.left, f condition.right⟩

variable [Named ν]

private theorem Condition.isKinded_map_folded {condition : Condition ν negation}
    (kinded : condition.toExpr.isKinded = true) :
    (condition.map Expr.folded).toExpr.isKinded = true :=
  Expr.isKinded_folded (e := condition.toExpr) kinded

theorem Condition.fold_eq_ok_iff {condition condition' : Condition ν negation} :
    condition.fold = .ok condition' ↔
      condition.toExpr.isKinded = true ∧ condition' = condition.map Expr.folded := by
  simp only [Condition.fold, Success.bind_eq_ok, Success.pure_eq_ok, Expr.fold_eq_ok_iff, and_assoc,
    exists_and_left, exists_eq_left, toExpr, Expr.isKinded, Bool.and_eq_true, map]

namespace Stmt

omit [Named ν]

mutual

/-- The statement with other expressions, and with nothing else changed. -/
def mapExprs (f : Expr ν negation → Expr ν negation) :
    Stmt ν initializers negation → Stmt ν initializers negation
  | declare name => .declare name
  | define allowed name value => .define allowed name (f value)
  | assign name value => .assign name (f value)
  | print value => .print (f value)
  | ifElse condition ifTrue ifFalse =>
    .ifElse (condition.map f) (mapAllExprs f ifTrue) (mapAllExprs f ifFalse)
  | loop condition body => .loop (condition.map f) (mapAllExprs f body)
  | function name parameters body => .function name parameters (mapAllExprs f body)
  | ret value => .ret (f value)
  | eval value => .eval (f value)

def mapAllExprs (f : Expr ν negation → Expr ν negation) :
    List (Stmt ν initializers negation) → List (Stmt ν initializers negation)
  | [] => []
  | s :: rest => s.mapExprs f :: mapAllExprs f rest

end

variable [Named ν]

mutual

/-- Folding fails exactly where operands have different kinds, and else folds every expression. -/
theorem fold_eq_ok_iff {s s' : Stmt ν initializers negation} :
    s.fold = .ok s' ↔ (∀ e ∈ s.exprs, e.isKinded = true) ∧ s' = s.mapExprs Expr.folded := by
  cases s with
  | declare name =>
    constructor
    · intro done
      cases done
      exact ⟨nofun, rfl⟩
    · rintro ⟨-, rfl⟩
      rfl
  | ifElse condition ifTrue ifFalse =>
    simp only [fold, Success.bind_eq_ok, Success.pure_eq_ok, Condition.fold_eq_ok_iff,
      foldAll_eq_ok_iff, and_assoc, exists_and_left, exists_eq_left, exprs, List.forall_mem_cons,
      List.forall_mem_append, mapExprs]
  | loop condition body =>
    simp only [fold, Success.bind_eq_ok, Success.pure_eq_ok, Condition.fold_eq_ok_iff,
      foldAll_eq_ok_iff, and_assoc, exists_and_left, exists_eq_left, exprs, List.forall_mem_cons,
      mapExprs]
  | function name parameters body =>
    simp only [fold, Success.bind_eq_ok, Success.pure_eq_ok, foldAll_eq_ok_iff, and_assoc,
      exists_and_left, exists_eq_left, exprs, mapExprs]
  | _ =>
    simp only [fold, Success.bind_eq_ok, Success.pure_eq_ok, Expr.fold_eq_ok_iff, and_assoc,
      exists_and_left, exists_eq_left, exprs, List.forall_mem_singleton, mapExprs]

theorem foldAll_eq_ok_iff {stmts stmts' : List (Stmt ν initializers negation)} :
    foldAll stmts = .ok stmts' ↔
      (∀ e ∈ allExprs stmts, e.isKinded = true) ∧ stmts' = mapAllExprs Expr.folded stmts := by
  cases stmts with
  | nil =>
    constructor
    · intro done
      cases done
      exact ⟨nofun, rfl⟩
    · rintro ⟨-, rfl⟩
      rfl
  | cons s rest =>
    simp only [foldAll, Success.bind_eq_ok, Success.pure_eq_ok, fold_eq_ok_iff, foldAll_eq_ok_iff,
      and_assoc, exists_and_left, exists_eq_left, allExprs, List.forall_mem_append, mapAllExprs]

end

mutual

theorem isKinded_mapExprs_folded {s : Stmt ν initializers negation} {result : Kind}
    (kinded : s.isKinded result = true) : (s.mapExprs Expr.folded).isKinded result = true := by
  cases s with
  | declare name => rfl
  | define allowed name value | assign name value | ret value =>
    simp only [isKinded, Bool.and_eq_true, decide_eq_true_eq] at kinded
    simp [mapExprs, isKinded, Expr.kind_folded, Expr.isKinded_folded kinded.1, kinded.2]
  | print value | eval value => exact Expr.isKinded_folded (e := value) kinded
  | ifElse condition ifTrue ifFalse =>
    simp only [isKinded, Bool.and_eq_true] at kinded
    simp [mapExprs, isKinded, Condition.isKinded_map_folded kinded.1.1,
      allKinded_mapAllExprs_folded kinded.1.2, allKinded_mapAllExprs_folded kinded.2]
  | loop condition body =>
    simp only [isKinded, Bool.and_eq_true] at kinded
    simp [mapExprs, isKinded, Condition.isKinded_map_folded kinded.1,
      allKinded_mapAllExprs_folded kinded.2]
  | function name parameters body => exact allKinded_mapAllExprs_folded kinded

/-- Folding keeps statements well kinded. -/
theorem allKinded_mapAllExprs_folded {stmts : List (Stmt ν initializers negation)} {result : Kind}
    (kinded : allKinded result stmts = true) :
    allKinded result (mapAllExprs Expr.folded stmts) = true := by
  cases stmts with
  | nil => rfl
  | cons s rest =>
    simp only [allKinded, Bool.and_eq_true] at kinded
    simp [mapAllExprs, allKinded, isKinded_mapExprs_folded kinded.1,
      allKinded_mapAllExprs_folded kinded.2]

end

end Stmt

end Folding

end Ast

/-! ### Type checking -/

namespace Typing

open Ast

mutual

theorem checkExpr_isKinded {context : Context} {e : Source.Expr} {typed : Expr Name True}
    (done : checkExpr context e = .ok typed) : typed.isKinded = true := by
  cases e with
  | neg inner span =>
    cases checkExpr_inv done with
    | neg own =>
      rw [Expr.isKinded]
      exact checkExpr_isKinded own
  | binary op left right span =>
    cases checkExpr_inv done with
    | arith first second same =>
      simp [Expr.isKinded, same, checkExpr_isKinded first, checkExpr_isKinded second]
    | compare first second =>
      simp [Expr.isKinded, checkExpr_isKinded first, checkExpr_isKinded second]
  | call function arguments span =>
    cases checkExpr_inv done with
    | call others signature known => exact checkExprs_allKinded others
  | _ =>
    cases checkExpr_inv done
    rfl

theorem checkExprs_allKinded {context : Context} {es : List Source.Expr}
    {typed : List (Expr Name True)} (done : List.Forall₂ (checkExpr context · = .ok ·) es typed) :
    Expr.allKinded typed = true := by
  cases es with
  | nil =>
    cases done
    rfl
  | cons e rest =>
    cases done with
    | cons own others =>
      simp [Expr.allKinded, checkExpr_isKinded own, checkExprs_allKinded others]

end

mutual

/-- A checked statement is well kinded if all that it returns has one kind. What it returns is added to
the returns that are known already. -/
theorem checkStmt_isKinded {s : Source.Stmt} {context : Context}
    {out : Stmt Name True True × Context} (done : checkStmt context s = .ok out) :
    ∃ more, out.2.returns = context.returns ++ more ∧
      ∀ result, (∀ returned ∈ more, returned.1 = result) → out.1.isKinded result = true := by
  cases s with
  | declare ident kind span =>
    cases checkStmt_inv done
    exact ⟨[], by simp [Context.declare], fun _ _ => rfl⟩
  | define ident annotation value span =>
    cases checkStmt_inv done with
    | define own fits =>
      refine ⟨[], by simp [Context.declare], fun _ _ => ?_⟩
      simp [Stmt.isKinded, checkExpr_isKinded own, Named.kind]
  | assign ident value span =>
    cases checkStmt_inv done with
    | introduce own unknown =>
      refine ⟨[], by simp [Context.declare], fun _ _ => ?_⟩
      simp [Stmt.isKinded, checkExpr_isKinded own, Named.kind]
    | assign own known =>
      refine ⟨[], by simp, fun _ _ => ?_⟩
      simp [Stmt.isKinded, checkExpr_isKinded own, Named.kind]
  | print value span =>
    cases checkStmt_inv done with
    | print own => exact ⟨[], by simp, fun _ _ => checkExpr_isKinded own⟩
  | eval value span =>
    cases checkStmt_inv done with
    | eval own => exact ⟨[], by simp, fun _ _ => checkExpr_isKinded own⟩
  | ret value span =>
    cases checkStmt_inv done with
    | @ret _ value' _ own =>
      refine ⟨[(value'.kind, value.span)], rfl, fun result returns => ?_⟩
      have kind : value'.kind = result := returns _ (List.mem_singleton_self _)
      simp [Stmt.isKinded, checkExpr_isKinded own, kind]
  | ifElse test ifTrue ifFalse span =>
    cases checkStmt_inv done with
    | ifElse tested first second =>
      obtain ⟨more₁, known₁, kinded₁⟩ := checkBlock_allKinded first
      obtain ⟨more₂, known₂, kinded₂⟩ := checkBlock_allKinded second
      refine ⟨more₁ ++ more₂, ?_, fun result returns => ?_⟩
      · rw [known₂, known₁, List.append_assoc]
      · obtain ⟨inFirst, inSecond⟩ := List.forall_mem_append.mp returns
        simp [Stmt.isKinded, checkExpr_isKinded tested, kinded₁ result inFirst,
          kinded₂ result inSecond]
  | loop test body span =>
    cases checkStmt_inv done with
    | loop tested round =>
      obtain ⟨more, known, kinded⟩ := checkBlock_allKinded round
      refine ⟨more, known, fun result returns => ?_⟩
      simp [Stmt.isKinded, checkExpr_isKinded tested, kinded result returns]
  | function ident parameters result body span =>
    cases checkStmt_inv done with
    | @function _ _ _ _ _ inner _ round returned =>
      obtain ⟨more, known, kinded⟩ := checkBlock_allKinded round
      have none : inner.returns = more := known
      exact ⟨[], by simp, fun _ _ => kinded _ (none ▸ returned)⟩

theorem checkBlock_allKinded {stmts : List Source.Stmt} {context : Context}
    {out : List (Stmt Name True True) × Context} (done : checkBlock context stmts = .ok out) :
    ∃ more, out.2.returns = context.returns ++ more ∧
      ∀ result, (∀ returned ∈ more, returned.1 = result) →
        Stmt.allKinded result out.1 = true := by
  cases stmts with
  | nil =>
    cases done
    exact ⟨[], by simp, fun _ _ => rfl⟩
  | cons s rest =>
    obtain ⟨s', rest', middle, behind, own, others, rfl⟩ := checkBlock_cons done
    obtain ⟨more₁, known₁, kinded₁⟩ := checkStmt_isKinded own
    obtain ⟨more₂, known₂, kinded₂⟩ := checkBlock_allKinded others
    refine ⟨more₁ ++ more₂, ?_, fun result returns => ?_⟩
    · rw [known₂, known₁, List.append_assoc]
    · obtain ⟨inFirst, inSecond⟩ := List.forall_mem_append.mp returns
      simp [Stmt.allKinded, kinded₁ result inFirst, kinded₂ result inSecond]

end

/-- Checked programs are well kinded. Loose statements return integers. -/
theorem check_allKinded {program : List Source.Stmt} {script : Parsed}
    (done : check program = .ok script) : Stmt.allKinded .integer script = true := by
  obtain ⟨context, checked, returned⟩ := check_eq_ok.mp done
  obtain ⟨more, known, kinded⟩ := checkBlock_allKinded checked
  have none : context.returns = more := known
  exact kinded .integer (none ▸ returned)

end Typing

/-- The programs that are accepted are well kinded. -/
theorem frontEnd_allKinded {source : String} {script : Ast.Parsed}
    (accepted : frontEnd source = .ok script) : Ast.Stmt.allKinded .integer script = true := by
  obtain ⟨program, -, typed⟩ := frontEnd_eq_ok.mp accepted
  exact Typing.check_allKinded typed

end Wabbit
