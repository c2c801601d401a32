import Wabbit.Proofs.Kinds.Statements
import Wabbit.Proofs.Names.Reading

/-!
What a program declares on its way from the source text to the resolution of names. No step in
between adds, drops or renames a declaration.
-/

namespace Wabbit

open Ast

namespace Ast.Stmt

variable {ν : Type} {initializers negation : Prop} [Named ν]

mutual

/-- The variables and parameters that a statement declares, at whatever depth. -/
def declared : Stmt ν initializers negation → List String
  | declare name => [Named.text name]
  | define _ name _ => [Named.text name]
  | ifElse _ ifTrue ifFalse => allDeclared ifTrue ++ allDeclared ifFalse
  | loop _ body => allDeclared body
  | function _ parameters body => parameters.map Named.text ++ allDeclared body
  | _ => []

def allDeclared : List (Stmt ν initializers negation) → List String
  | [] => []
  | s :: rest => s.declared ++ allDeclared rest

end

theorem allDeclared_append (front back : List (Stmt ν initializers negation)) :
    allDeclared (front ++ back) = allDeclared front ++ allDeclared back := by
  induction front with
  | nil => rfl
  | cons s rest ih => simp [allDeclared, ih]

mutual

theorem declared_mapExprs (f : Expr ν negation → Expr ν negation)
    (s : Stmt ν initializers negation) : (s.mapExprs f).declared = s.declared := by
  cases s with
  | ifElse condition ifTrue ifFalse =>
    simp only [mapExprs, declared, allDeclared_mapAllExprs f ifTrue,
      allDeclared_mapAllExprs f ifFalse]
  | loop condition body => simp only [mapExprs, declared, allDeclared_mapAllExprs f body]
  | function name parameters body => simp only [mapExprs, declared, allDeclared_mapAllExprs f body]
  | _ => rfl

theorem allDeclared_mapAllExprs (f : Expr ν negation → Expr ν negation)
    (stmts : List (Stmt ν initializers negation)) :
    allDeclared (mapAllExprs f stmts) = allDeclared stmts := by
  cases stmts with
  | nil => rfl
  | cons s rest =>
    simp only [mapAllExprs, allDeclared, declared_mapExprs f s, allDeclared_mapAllExprs f rest]

end

/-- Folding changes no declaration. -/
theorem allDeclared_foldAll {stmts stmts' : List (Stmt ν initializers negation)}
    (done : foldAll stmts = .ok stmts') : allDeclared stmts' = allDeclared stmts := by
  obtain ⟨-, rfl⟩ := foldAll_eq_ok_iff.mp done
  exact allDeclared_mapAllExprs Expr.folded stmts

mutual

theorem allDeclared_split (s : Stmt ν initializers negation) :
    allDeclared s.split = s.declared := by
  cases s with
  | ifElse condition ifTrue ifFalse | loop condition body | function name parameters body =>
    simp only [split, allDeclared, declared, allDeclared_splitAll, List.append_nil]
  | _ => rfl

/-- Taking declarations with a value apart declares the same names. -/
theorem allDeclared_splitAll (stmts : List (Stmt ν initializers negation)) :
    allDeclared (splitAll stmts) = allDeclared stmts := by
  cases stmts with
  | nil => rfl
  | cons s rest =>
    simp only [splitAll, allDeclared_append, allDeclared_split s, allDeclared_splitAll rest,
      allDeclared]

end

end Ast.Stmt

namespace Typing

mutual

theorem declared_checkStmt {s : Source.Stmt} {context : Context}
    {out : Stmt Name True True × Context} (done : checkStmt context s = .ok out) :
    out.1.declared = s.declared := by
  cases s with
  | ifElse test ifTrue ifFalse span =>
    cases checkStmt_inv done with
    | ifElse tested first second =>
      simp only [Stmt.declared, Source.Stmt.declared, declared_checkBlock first,
        declared_checkBlock second]
  | loop test body span =>
    cases checkStmt_inv done with
    | loop tested round => simp only [Stmt.declared, Source.Stmt.declared, declared_checkBlock round]
  | function ident parameters result body span =>
    cases checkStmt_inv done with
    | function round returned =>
      simp only [Stmt.declared, Source.Stmt.declared, declared_checkBlock round, List.map_map]
      rfl
  | _ => cases checkStmt_inv done <;> rfl

/-- Giving statements their kinds changes no declaration. -/
theorem declared_checkBlock {stmts : List Source.Stmt} {context : Context}
    {out : List (Stmt Name True True) × Context} (done : checkBlock context stmts = .ok out) :
    Stmt.allDeclared out.1 = Source.Stmt.allDeclared stmts := by
  cases stmts with
  | nil =>
    cases done
    rfl
  | cons s rest =>
    obtain ⟨s', rest', middle, behind, own, others, rfl⟩ := checkBlock_cons done
    simp only [Stmt.allDeclared, Source.Stmt.allDeclared, declared_checkStmt own,
      declared_checkBlock others]

end

end Typing

/-- All that an accepted program declares starts without a dot. -/
theorem frontEnd_declared {source : String} {script : Parsed} (done : frontEnd source = .ok script) :
    ∀ name ∈ Stmt.allDeclared script, isUndotted name = true := by
  obtain ⟨program, read, typed⟩ := frontEnd_eq_ok.mp done
  obtain ⟨context, checked, -⟩ := Typing.check_eq_ok.mp typed
  rw [Typing.declared_checkBlock checked]
  exact Source.read_declared read

/-- Neither does folding or taking declarations apart change what is declared. -/
theorem declared_split_fold {script folded : Parsed} (done : script.fold = .ok folded) :
    Stmt.allDeclared folded.split = Stmt.allDeclared script :=
  (Stmt.allDeclared_splitAll folded).trans (Stmt.allDeclared_foldAll done)

end Wabbit
