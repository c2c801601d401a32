import Wabbit.Proofs.Typing.Steps

/-!
Calls and the functions that they are checked against. The type checker keeps one table of signatures
for the whole program, in which a function that starts takes the place of an earlier one of its name,
in whatever block or function it stands. Main statement: every call of a checked program has arguments
of the kinds of the parameters of the latest function of its name that has started before it.
-/

namespace Wabbit

namespace Ast

/-- What happens to functions when a program is read from its beginning to its end. -/
inductive Moment where
  /-- A function starts that has parameters of some kinds. -/
  | start (function : String) (parameters : List Kind)
  /-- A function is called with arguments of some kinds. -/
  | call (function : String) (arguments : List Kind)
  deriving DecidableEq, Repr

variable {ν : Type} {initializers negation : Prop} [Named ν]

namespace Expr

mutual

/-- The calls in an expression. The arguments of a call come before it. -/
def moments : Expr ν negation → List Moment
  | int _ | float _ | name _ => []
  | arith _ left right | compare _ left right => left.moments ++ right.moments
  | call function arguments =>
    allMoments arguments ++ [.call (Named.text function) (arguments.map kind)]
  | neg _ inner => inner.moments

def allMoments : List (Expr ν negation) → List Moment
  | [] => []
  | e :: rest => e.moments ++ allMoments rest

end

end Expr

namespace Stmt

mutual

/-- The starts of functions and the calls in a statement. A function starts before its body. -/
def moments : Stmt ν initializers negation → List Moment
  | declare _ => []
  | define _ _ value | assign _ value | print value | ret value | eval value => value.moments
  | ifElse condition ifTrue ifFalse =>
    condition.toExpr.moments ++ (allMoments ifTrue ++ allMoments ifFalse)
  | loop condition body => condition.toExpr.moments ++ allMoments body
  | function name parameters body =>
    .start (Named.text name) (parameters.map Named.kind) :: allMoments body

def allMoments : List (Stmt ν initializers negation) → List Moment
  | [] => []
  | s :: rest => s.moments ++ allMoments rest

end

end Stmt

end Ast

namespace Typing

open Ast

/-- Passing through some moments leads from one table of signatures to another, where every call is
met by what the table says at that moment. -/
inductive Passes : List (String × List Kind) → List Moment → List (String × List Kind) → Prop where
  | nil {table} : Passes table [] table
  | start {table behind function parameters rest}
      (others : Passes ((function, parameters) :: table) rest behind) :
      Passes table (.start function parameters :: rest) behind
  | call {table behind function arguments rest} (met : table.lookup function = some arguments)
      (others : Passes table rest behind) :
      Passes table (.call function arguments :: rest) behind

namespace Passes

variable {table middle behind : List (String × List Kind)} {front back past : List Moment}

theorem append (first : Passes table front middle) (second : Passes middle back behind) :
    Passes table (front ++ back) behind := by
  induction first with
  | nil => exact second
  | start others ih => exact .start (ih second)
  | call met others ih => exact .call met (ih second)

private theorem split (passes : Passes table (front ++ back) behind) :
    ∃ middle, Passes table front middle ∧ Passes middle back behind := by
  induction front generalizing table with
  | nil => exact ⟨table, .nil, passes⟩
  | cons moment rest ih =>
    cases passes with
    | start others =>
      obtain ⟨middle, first, second⟩ := ih others
      exact ⟨middle, .start first, second⟩
    | call met others =>
      obtain ⟨middle, first, second⟩ := ih others
      exact ⟨middle, .call met first, second⟩

/-- What the table says about a function is what it has said before, or what the latest function of
this name has set. -/
theorem lookup {function : String} {kinds : List Kind} (passes : Passes table past behind)
    (found : behind.lookup function = some kinds) :
    (table.lookup function = some kinds ∧ ∀ other, .start function other ∉ past) ∨
      ∃ earlier between, past = earlier ++ .start function kinds :: between ∧
        ∀ other, .start function other ∉ between := by
  induction passes with
  | nil => exact .inl ⟨found, fun _ => List.not_mem_nil⟩
  | @start _ _ name parameters rest others ih =>
    rcases ih found with ⟨first, none⟩ | ⟨earlier, between, rfl, none⟩
    · rw [List.lookup_cons] at first
      by_cases same : function = name
      · subst same
        rw [beq_self_eq_true] at first
        cases first
        exact .inr ⟨[], rest, rfl, none⟩
      · rw [beq_eq_false_iff_ne.mpr same] at first
        refine .inl ⟨first, fun other member => ?_⟩
        rcases List.mem_cons.mp member with own | later
        · cases own
          exact same rfl
        · exact none other later
    · exact .inr ⟨.start name parameters :: earlier, between, rfl, none⟩
  | @call _ _ name arguments rest met others ih =>
    rcases ih found with ⟨first, none⟩ | ⟨earlier, between, rfl, none⟩
    · refine .inl ⟨first, fun other member => ?_⟩
      rcases List.mem_cons.mp member with own | later
      · cases own
      · exact none other later
    · exact .inr ⟨.call name arguments :: earlier, between, rfl, none⟩

/-- From an empty table on, every call is met by the latest function of its name before it. -/
theorem latest {function : String} {arguments : List Kind} {before after : List Moment}
    (passes : Passes [] (before ++ .call function arguments :: after) behind) :
    ∃ earlier between, before = earlier ++ .start function arguments :: between ∧
      ∀ other, .start function other ∉ between := by
  obtain ⟨middle, first, second⟩ := passes.split
  cases second with
  | call met others =>
    rcases first.lookup met with ⟨known, -⟩ | found
    · cases known
    · exact found

end Passes

mutual

/-- An expression is checked without changing the table. -/
theorem passes_checkExpr {context : Context} {e : Source.Expr} {e' : Expr Name True}
    (done : checkExpr context e = .ok e') :
    Passes context.signatures e'.moments context.signatures := by
  cases e with
  | neg inner span =>
    cases checkExpr_inv done with
    | neg own =>
      rw [Expr.moments]
      exact passes_checkExpr own
  | binary op left right span =>
    cases checkExpr_inv done with
    | arith first second same => exact (passes_checkExpr first).append (passes_checkExpr second)
    | compare first second => exact (passes_checkExpr first).append (passes_checkExpr second)
  | call function arguments span =>
    cases checkExpr_inv done with
    | call others signature known => exact (passes_checkExprs others).append (.call signature .nil)
  | _ =>
    cases checkExpr_inv done
    exact .nil

theorem passes_checkExprs {context : Context} {es : List Source.Expr} {es' : List (Expr Name True)}
    (done : List.Forall₂ (checkExpr context · = .ok ·) es es') :
    Passes context.signatures (Expr.allMoments es') context.signatures := by
  cases es with
  | nil =>
    cases done
    exact .nil
  | cons e rest =>
    cases done with
    | cons own others => exact (passes_checkExpr own).append (passes_checkExprs others)

end

mutual

theorem passes_checkStmt {s : Source.Stmt} {context : Context} {out : Stmt Name True True × Context}
    (done : checkStmt context s = .ok out) :
    Passes context.signatures out.1.moments out.2.signatures := by
  cases s with
  | declare ident kind span =>
    cases checkStmt_inv done
    exact .nil
  | define ident annotation value span =>
    cases checkStmt_inv done with
    | define own fits => exact passes_checkExpr own
  | assign ident value span =>
    cases checkStmt_inv done with
    | introduce own unknown => exact passes_checkExpr own
    | assign own known => exact passes_checkExpr own
  | print value span =>
    cases checkStmt_inv done with
    | print own => exact passes_checkExpr own
  | ifElse test ifTrue ifFalse span =>
    cases checkStmt_inv done with
    | ifElse tested first second =>
      exact (passes_checkExpr tested).append
        ((passes_checkBlock first).append (passes_checkBlock second))
  | loop test body span =>
    cases checkStmt_inv done with
    | loop tested round => exact (passes_checkExpr tested).append (passes_checkBlock round)
  | function ident parameters result body span =>
    cases checkStmt_inv done with
    | function round returned =>
      have signature : (parameters.map fun p => (⟨p.1, p.2⟩ : Name)).map Named.kind =
          parameters.map Prod.snd := List.map_map
      rw [Stmt.moments, signature]
      -- What a body sets in the table stays there behind the function.
      exact .start (passes_checkBlock round)
  | ret value span =>
    cases checkStmt_inv done with
    | ret own => exact passes_checkExpr own
  | eval value span =>
    cases checkStmt_inv done with
    | eval own => exact passes_checkExpr own

theorem passes_checkBlock {stmts : List Source.Stmt} {context : Context}
    {out : List (Stmt Name True True) × Context} (done : checkBlock context stmts = .ok out) :
    Passes context.signatures (Stmt.allMoments out.1) out.2.signatures := by
  cases stmts with
  | nil =>
    cases done
    exact .nil
  | cons s rest =>
    obtain ⟨s', rest', middle, behind, own, others, rfl⟩ := checkBlock_cons done
    exact (passes_checkStmt own).append (passes_checkBlock others)

end

end Typing

end Wabbit
