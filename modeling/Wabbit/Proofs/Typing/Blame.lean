import Wabbit.Proofs.Grammar.Nodes
import Wabbit.Proofs.Typing.Steps

/-!
What the type checker blames. The place that an error points to is that of a statement or of an
expression of the program, also where a function returns values of different kinds, which is told
only at its end.
-/

namespace Wabbit

open Ast

/-- The place that an error points to. -/
def TypeError.span : TypeError → Span
  | undeclared _ span => span
  | operands _ span => span
  | notCondition span => span
  | returned _ _ span => span
  | assigned _ _ _ span => span
  | argumentCount _ _ _ span => span
  | argument _ _ _ span => span

namespace Source

/-- The span of a statement or an expression of a program. -/
inductive Marks (program : List Stmt) : Span → Prop where
  | statement {s : Stmt} (inside : (Node.statement s).In program) : Marks program s.span
  | expression {e : Expr} (inside : (Node.expression e).In program) : Marks program e.span

end Source

namespace Typing

open Source (Node Marks)

/-- A check that fails points to a statement or an expression of the program, and one that does not
leaves behind what is required. -/
inductive Blames {α : Type} (program : List Source.Stmt) (kept : α → Prop) :
    Except TypeError α → Prop where
  | ok {a : α} (holds : kept a) : Blames program kept (.ok a)
  | error {error : TypeError} (marks : Marks program error.span) : Blames program kept (.error error)

/-- The kinds that are returned so far come from expressions of the program. -/
abbrev Context.Marked (program : List Source.Stmt) (context : Context) : Prop :=
  ∀ returned ∈ context.returns, Marks program returned.2

namespace Blames

variable {program : List Source.Stmt} {α β : Type} {kept : α → Prop}

theorem bind {x : Except TypeError α} {f : α → Except TypeError β} {kept' : β → Prop}
    (first : Blames program kept x) (rest : ∀ a, kept a → Blames program kept' (f a)) :
    Blames program kept' (x >>= f) := by
  cases first with
  | ok holds => exact rest _ holds
  | error marks => exact .error marks

section Expressions

variable {context : Context}

private theorem lookup {name : String} {span : Span} (marks : Marks program span) :
    Blames program (fun _ => True) (context.lookup name span) := by
  unfold Context.lookup
  split
  · exact .ok trivial
  · exact .error marks

private theorem checkBinary (op : Operator) (left right : Expr Name True) {span : Span}
    (marks : Marks program span) :
    Blames program (fun _ => True) (Typing.checkBinary op left right span) := by
  cases op with
  | arithmetic op =>
    rw [Typing.checkBinary]
    cases Expr.arithmetic op left right with
    | error mismatch => exact .error marks
    | ok e => exact .ok trivial
  | compare op => exact .ok trivial

mutual

theorem checkExpr {e : Source.Expr} (inside : (Node.expression e).In program) :
    Blames program (fun _ => True) (Typing.checkExpr context e) := by
  have marks := Marks.expression inside
  cases e with
  | int value span => exact .ok trivial
  | float value span => exact .ok trivial
  | var name span => exact (lookup marks).bind fun _ _ => .ok trivial
  | neg inner span =>
    exact (checkExpr (inside.child (by simp [Node.children]))).bind fun _ _ => .ok trivial
  | binary op left right span =>
    refine (checkExpr (inside.child (by simp [Node.children]))).bind fun left' _ => ?_
    refine (checkExpr (inside.child (by simp [Node.children]))).bind fun right' _ => ?_
    exact checkBinary op left' right' marks
  | call function arguments span =>
    rw [Typing.checkExpr]
    split
    · split
      · exact .error marks
      · have each : ∀ e ∈ arguments, (Node.expression e).In program :=
          fun e member => inside.child (List.mem_map_of_mem member)
        exact (checkArguments each _).bind fun _ _ => (lookup marks).bind fun _ _ => .ok trivial
    · exact .error marks

theorem checkArguments {function : String} {arguments : List Source.Expr}
    (inside : ∀ e ∈ arguments, (Node.expression e).In program) (parameters : List Kind) :
    Blames program (fun _ => True) (Typing.checkArguments context function arguments parameters) := by
  cases arguments with
  | nil => exact .ok trivial
  | cons e rest =>
    cases parameters with
    | nil => exact .ok trivial
    | cons expected kinds =>
      obtain ⟨own, others⟩ := List.forall_mem_cons.mp inside
      rw [Typing.checkArguments]
      refine (checkExpr own).bind fun e' _ => ?_
      split
      · exact .error (.expression own)
      · exact (checkArguments others kinds).bind fun _ _ => .ok trivial

end

private theorem checkCondition {e : Source.Expr} (inside : (Node.expression e).In program) :
    Blames program (fun _ => True) (Typing.checkCondition context e) := by
  unfold Typing.checkCondition
  split
  · refine (checkExpr (inside.child (by simp [Node.children]))).bind fun _ _ => ?_
    exact (checkExpr (inside.child (by simp [Node.children]))).bind fun _ _ => .ok trivial
  · exact .error (.expression inside)

end Expressions

section Statements

theorem checkReturns {context : Context} (marked : context.Marked program) (expected : Kind) :
    Blames program (fun _ => True) (Typing.checkReturns context.returns expected) := by
  unfold Typing.checkReturns
  split
  · rename_i found span first
    exact .error (marked _ (List.mem_of_find?_eq_some first))
  · exact .ok trivial

private theorem marked_enter (context : Context) (name : String) (parameters : List (String × Kind))
    (result : Option Kind) : (context.enter name parameters result).Marked program := nofun

mutual

theorem checkStmt {s : Source.Stmt} {context : Context} (inside : (Node.statement s).In program)
    (marked : context.Marked program) :
    Blames program (fun out => out.2.Marked program) (Typing.checkStmt context s) := by
  cases s with
  | declare ident kind span => exact .ok marked
  | define ident kind value span =>
    rw [Typing.checkStmt]
    refine (checkExpr (inside.child (by simp [Node.children]))).bind fun value' _ => ?_
    dsimp only
    split
    · exact .error (.statement inside)
    · exact .ok marked
  | assign ident value span =>
    have own : (Node.expression value).In program := inside.child (by simp [Node.children])
    rw [Typing.checkStmt]
    refine (checkExpr own).bind fun value' _ => ?_
    split
    · exact .ok marked
    · split
      · exact .error (.expression own)
      · exact .ok marked
  | print value span | eval value span =>
    exact (checkExpr (inside.child (by simp [Node.children]))).bind fun _ _ => .ok marked
  | ret value span =>
    have own : (Node.expression value).In program := inside.child (by simp [Node.children])
    refine (checkExpr own).bind fun _ _ => .ok (List.forall_mem_append.mpr ⟨marked, ?_⟩)
    exact List.forall_mem_singleton.mpr (.expression own)
  | ifElse test ifTrue ifFalse span =>
    rw [Typing.checkStmt]
    refine (checkCondition (inside.child (by simp [Node.children]))).bind fun _ _ => ?_
    refine (checkBlock (fun s member => inside.child ?_) marked).bind fun out first => ?_
    · simp [Node.children, member]
    refine (checkBlock (fun s member => inside.child ?_) first).bind fun out' second => .ok second
    simp [Node.children, member]
  | loop test body span =>
    rw [Typing.checkStmt]
    refine (checkCondition (inside.child (by simp [Node.children]))).bind fun _ _ => ?_
    refine (checkBlock (fun s member => inside.child ?_) marked).bind fun out round => .ok round
    simp [Node.children, member]
  | function ident parameters result body span =>
    -- Nothing is returned yet where the function begins, so all that it returns stands in its body.
    rw [Typing.checkStmt]
    refine (checkBlock (fun s member => inside.child ?_) (marked_enter _ _ _ _)).bind
      fun out round => ?_
    · simp [Node.children, member]
    exact (checkReturns round _).bind fun _ _ => .ok marked

theorem checkBlock {stmts : List Source.Stmt} {context : Context}
    (inside : ∀ s ∈ stmts, (Node.statement s).In program) (marked : context.Marked program) :
    Blames program (fun out => out.2.Marked program) (Typing.checkBlock context stmts) := by
  cases stmts with
  | nil => exact .ok marked
  | cons s rest =>
    obtain ⟨own, others⟩ := List.forall_mem_cons.mp inside
    rw [Typing.checkBlock]
    refine (checkStmt own marked).bind fun out first => ?_
    exact (checkBlock others first).bind fun out' second => .ok second

end

end Statements

/-- Whatever the type checker complains about is a statement or an expression of the program. -/
theorem check (program : List Source.Stmt) :
    Blames program (fun _ => True) (Typing.check program) := by
  have inside : ∀ s ∈ program, (Node.statement s).In program := fun s member => ⟨s, member, .self⟩
  have start : Context.Marked program {} := nofun
  rw [Typing.check]
  refine (checkBlock inside start).bind fun out marked => ?_
  exact (checkReturns marked _).bind fun _ _ => .ok trivial

end Blames

end Typing

end Wabbit
