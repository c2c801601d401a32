import Wabbit.Proofs.Kinds.Statements
import Wabbit.Proofs.Meaning.Expressions
import Wabbit.Proofs.Typing.Calls
import Wabbit.Proofs.Typing.Erasure

/-!
What a program that the type checker accepts is promised: its operators, assignments, returns and
calls agree with the kinds they were given. Main statement: the checker gives well kinded programs
only, and without their kinds these are the programs that it was given.
-/

namespace Wabbit

namespace Ast

variable {ν : Type} {initializers negation : Prop} [Named ν]

namespace Expr

variable {op : Arithmetic} {left right e : Expr ν negation}

/-- The operands of an arithmetic operator inside a well kinded expression have its kind. -/
theorem kind_operands (kinded : e.isKinded = true) (inside : .arith op left right ∈ e.parts) :
    left.kind = (arith op left right).kind ∧ right.kind = (arith op left right).kind := by
  have root := isKinded_of_mem_parts kinded inside
  simp only [isKinded, Bool.and_eq_true, decide_eq_true_eq] at root
  exact ⟨rfl, root.1.1.symm⟩

private theorem kind_compare_eq_float {op : Comparison} :
    (compare op left right).kind = .float ↔ left.kind = .float ∨ right.kind = .float := by
  rw [kind]
  cases left.kind <;> cases right.kind <;> simp [Kind.join]

end Expr

namespace Stmt

omit [Named ν]

mutual

/-- All assignments and declarations with a value in a statement: the names and the values. -/
def stores : Stmt ν initializers negation → List (ν × Expr ν negation)
  | define _ name value | assign name value => [(name, value)]
  | ifElse _ ifTrue ifFalse => allStores ifTrue ++ allStores ifFalse
  | loop _ body | function _ _ body => allStores body
  | declare _ | print _ | ret _ | eval _ => []

def allStores : List (Stmt ν initializers negation) → List (ν × Expr ν negation)
  | [] => []
  | s :: rest => s.stores ++ allStores rest

end

mutual

/-- What a statement returns, at whatever depth of branches and loops. A function inside of it returns
for itself. -/
def returned : Stmt ν initializers negation → List (Expr ν negation)
  | ret value => [value]
  | ifElse _ ifTrue ifFalse => allReturned ifTrue ++ allReturned ifFalse
  | loop _ body => allReturned body
  | declare _ | define .. | assign .. | print _ | function .. | eval _ => []

def allReturned : List (Stmt ν initializers negation) → List (Expr ν negation)
  | [] => []
  | s :: rest => s.returned ++ allReturned rest

end

mutual

/-- The functions in a statement, nested ones among them: their names and bodies. -/
def bodies : Stmt ν initializers negation → List (ν × List (Stmt ν initializers negation))
  | function name _ body => (name, body) :: allBodies body
  | ifElse _ ifTrue ifFalse => allBodies ifTrue ++ allBodies ifFalse
  | loop _ body => allBodies body
  | declare _ | define .. | assign .. | print _ | ret _ | eval _ => []

def allBodies : List (Stmt ν initializers negation) → List (ν × List (Stmt ν initializers negation))
  | [] => []
  | s :: rest => s.bodies ++ allBodies rest

end

variable [Named ν]

mutual

theorem isKinded_stores {s : Stmt ν initializers negation} {result : Kind}
    (kinded : s.isKinded result = true) :
    ∀ store ∈ s.stores, store.2.kind = Named.kind store.1 := by
  cases s with
  | define allowed name value | assign name value =>
    simp only [isKinded, Bool.and_eq_true, decide_eq_true_eq] at kinded
    exact List.forall_mem_singleton.mpr kinded.2
  | ifElse condition ifTrue ifFalse =>
    simp only [isKinded, Bool.and_eq_true] at kinded
    rw [stores, List.forall_mem_append]
    exact ⟨allKinded_stores kinded.1.2, allKinded_stores kinded.2⟩
  | loop condition body =>
    simp only [isKinded, Bool.and_eq_true] at kinded
    exact allKinded_stores kinded.2
  | function name parameters body => exact allKinded_stores kinded
  | _ => exact nofun

theorem allKinded_stores {stmts : List (Stmt ν initializers negation)} {result : Kind}
    (kinded : allKinded result stmts = true) :
    ∀ store ∈ allStores stmts, store.2.kind = Named.kind store.1 := by
  cases stmts with
  | nil => exact nofun
  | cons s rest =>
    simp only [allKinded, Bool.and_eq_true] at kinded
    rw [allStores, List.forall_mem_append]
    exact ⟨isKinded_stores kinded.1, allKinded_stores kinded.2⟩

end

mutual

theorem isKinded_returned {s : Stmt ν initializers negation} {result : Kind}
    (kinded : s.isKinded result = true) : ∀ value ∈ s.returned, value.kind = result := by
  cases s with
  | ret value =>
    simp only [isKinded, Bool.and_eq_true, decide_eq_true_eq] at kinded
    exact List.forall_mem_singleton.mpr kinded.2
  | ifElse condition ifTrue ifFalse =>
    simp only [isKinded, Bool.and_eq_true] at kinded
    rw [returned, List.forall_mem_append]
    exact ⟨allKinded_returned kinded.1.2, allKinded_returned kinded.2⟩
  | loop condition body =>
    simp only [isKinded, Bool.and_eq_true] at kinded
    exact allKinded_returned kinded.2
  | _ => exact nofun

theorem allKinded_returned {stmts : List (Stmt ν initializers negation)} {result : Kind}
    (kinded : allKinded result stmts = true) : ∀ value ∈ allReturned stmts, value.kind = result := by
  cases stmts with
  | nil => exact nofun
  | cons s rest =>
    simp only [allKinded, Bool.and_eq_true] at kinded
    rw [allReturned, List.forall_mem_append]
    exact ⟨isKinded_returned kinded.1, allKinded_returned kinded.2⟩

end

mutual

/-- Where a statement is well kinded, every function in it is, for the kind of its own name. -/
theorem isKinded_bodies {s : Stmt ν initializers negation} {result : Kind}
    (kinded : s.isKinded result = true) :
    ∀ f ∈ s.bodies, allKinded (Named.kind f.1) f.2 = true := by
  cases s with
  | function name parameters body =>
    rw [bodies, List.forall_mem_cons]
    exact ⟨kinded, allKinded_bodies kinded⟩
  | ifElse condition ifTrue ifFalse =>
    simp only [isKinded, Bool.and_eq_true] at kinded
    rw [bodies, List.forall_mem_append]
    exact ⟨allKinded_bodies kinded.1.2, allKinded_bodies kinded.2⟩
  | loop condition body =>
    simp only [isKinded, Bool.and_eq_true] at kinded
    exact allKinded_bodies kinded.2
  | _ => exact nofun

theorem allKinded_bodies {stmts : List (Stmt ν initializers negation)} {result : Kind}
    (kinded : allKinded result stmts = true) :
    ∀ f ∈ allBodies stmts, allKinded (Named.kind f.1) f.2 = true := by
  cases stmts with
  | nil => exact nofun
  | cons s rest =>
    simp only [allKinded, Bool.and_eq_true] at kinded
    rw [allBodies, List.forall_mem_append]
    exact ⟨isKinded_bodies kinded.1, allKinded_bodies kinded.2⟩

end

end Stmt

/-- The kinds in a program fit together. -/
structure Script.IsWellKinded (script : Parsed) : Prop where
  /-- Both operands of an arithmetic operator have its kind. -/
  arithmetic : ∀ e ∈ Stmt.allExprs script, ∀ op left right, .arith op left right ∈ e.parts →
    left.kind = (Expr.arith op left right).kind ∧ right.kind = (Expr.arith op left right).kind
  /-- Floats are compared as soon as one operand is a float. -/
  comparisons : ∀ e ∈ Stmt.allExprs script, ∀ op left right, .compare op left right ∈ e.parts →
    ((Expr.compare op left right).kind = .float ↔ left.kind = .float ∨ right.kind = .float)
  /-- A value that is stored has the kind of its name. -/
  stores : ∀ store ∈ Stmt.allStores script, store.2.kind = store.1.kind
  /-- A function returns values of the kind of its name. -/
  returns : ∀ f ∈ Stmt.allBodies script, ∀ value ∈ Stmt.allReturned f.2, value.kind = f.1.kind
  /-- Outside of functions integers are returned. -/
  loose : ∀ value ∈ Stmt.allReturned script, value.kind = .integer
  /-- A call has the arguments that the latest function of its name takes. -/
  calls : ∀ before function arguments after,
    Stmt.allMoments script = before ++ .call function arguments :: after →
      ∃ earlier between, before = earlier ++ .start function arguments :: between ∧
        ∀ other, .start function other ∉ between

end Ast

namespace Typing

open Ast

/-- The type checker gives well kinded programs only. Without the kinds it has added, they are what it
was given. -/
theorem check_sound {program : List Source.Stmt} {script : Parsed}
    (done : check program = .ok script) :
    Stmt.allErased script = Source.Stmt.allUnannotated program ∧ script.IsWellKinded := by
  obtain ⟨context, checked, -⟩ := check_eq_ok.mp done
  have kinded := check_allKinded done
  have exprs := Stmt.isKinded_allExprs kinded
  have passes := passes_checkBlock checked
  refine ⟨erased_checkBlock checked, ?_⟩
  exact
    { arithmetic := fun e member _ _ _ inside => Expr.kind_operands (exprs e member) inside
      comparisons := fun _ _ _ _ _ _ => Expr.kind_compare_eq_float
      stores := Stmt.allKinded_stores kinded
      returns := fun f member => Stmt.allKinded_returned (Stmt.allKinded_bodies kinded f member)
      loose := Stmt.allKinded_returned kinded
      calls := fun _ _ _ _ here => Passes.latest (here ▸ passes) }

/-- A function inside a function of the same name, which takes its place for all calls behind it. The
outer one gets the kind of its result from what it returns. -/
theorem check_sound_nested :
    let source := "func f(n int) \x7b func f(x float, y float) float \x7b" ++
      " while x < 1 \x7b return y; \x7d return f(x - y, 2.0); \x7d" ++
      " return f(0.5, n * 2 < 7.5); \x7d var z float = f(1.0, 1.5); z = -z; return 3;"
    let call : Moment := .call "f" [.float, .float]
    ∃ program script, Source.read source = .ok program ∧ check program = .ok script ∧
      Stmt.allMoments script = [.start "f" [.integer], .start "f" [.float, .float], call, call, call] ∧
      Stmt.allErased script = Source.Stmt.allUnannotated program ∧ script.IsWellKinded := by
  intro source call
  have run : ((Source.read source).toOption.bind fun program =>
      (check program).toOption.map Stmt.allMoments) =
      some [.start "f" [.integer], .start "f" [.float, .float], call, call, call] := by
    decide +kernel
  obtain ⟨program, readable, chain⟩ := Option.bind_eq_some_iff.mp run
  obtain ⟨script, accepted, moments⟩ := Option.map_eq_some_iff.mp chain
  have done : check program = .ok script := Success.toOption_eq_some.mp accepted
  exact ⟨program, script, Success.toOption_eq_some.mp readable, done, moments, check_sound done⟩

end Typing

end Wabbit
