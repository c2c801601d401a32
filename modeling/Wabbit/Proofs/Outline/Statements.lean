import Wabbit.Proofs.Lowering.Sound

/-!
Programs in outline. Of an instruction only the variables of its function are kept that it makes
room for or uses, and where it leads; of a statement only the outlines of its parts and whether it
returns. All steps between the resolution of names and the grouping of blocks leave this as it is.
-/

namespace Wabbit

open Ast Stack

/-- What an instruction has to do with the variables of its function and with control flow. -/
inductive Mark where
  /-- Room is made for a variable. -/
  | room (name : Name)
  /-- A variable is read or written. -/
  | access (name : Name)
  /-- Control may go on at one of the labels. -/
  | lead (targets : List Label)
  deriving DecidableEq, Repr

/-- A global variable leaves no mark. -/
def Ast.Symbol.marks (symbol : Symbol) : List Mark :=
  match symbol.storage with
  | .global => []
  | .stack => [.access symbol.name]

theorem Ast.Symbol.eq_access_of_mem_marks {symbol : Symbol} {mark : Mark}
    (member : mark ∈ symbol.marks) : mark = .access symbol.name := by
  obtain ⟨text, kind, storage⟩ := symbol
  cases storage with
  | global => cases member
  | stack => exact List.mem_singleton.mp member

namespace Stack

/-- The marks of an instruction. -/
def Instr.marks : Instr → List Mark
  | load symbol | store symbol => symbol.marks
  | goto label => [.lead [label]]
  | branch ifTrue ifFalse => [.lead [ifTrue, ifFalse]]
  | slot name => [.room name]
  | _ => []

/-- The marks of some instructions, in their order. -/
def marksOf (instrs : List Instr) : List Mark := instrs.flatMap Instr.marks

@[simp]
theorem marksOf_append (front back : List Instr) :
    marksOf (front ++ back) = marksOf front ++ marksOf back := List.flatMap_append

@[simp]
theorem marksOf_cons (i : Instr) (rest : List Instr) :
    marksOf (i :: rest) = i.marks ++ marksOf rest := List.flatMap_cons

@[simp]
theorem marksOf_nil : marksOf [] = [] := rfl

end Stack

/-- The outline of a statement. -/
inductive Outline where
  | leaf (marks : List Mark) (returns : Bool)
  | branch (test : List Mark) (ifTrue ifFalse : List Outline)
  | loop (test : List Mark) (body : List Outline)
  /-- A function inside of another one. -/
  | function (name : Name)

/-! ### Statements -/

namespace Ast

variable {negation : Prop}

mutual

/-- The marks of an expression. -/
def Expr.marks : Expr Symbol negation → List Mark
  | .int _ | .float _ => []
  | .name symbol => symbol.marks
  | .arith _ left right | .compare _ left right => left.marks ++ right.marks
  | .call _ arguments => Expr.allMarks arguments
  | .neg _ inner => inner.marks

def Expr.allMarks : List (Expr Symbol negation) → List Mark
  | [] => []
  | e :: rest => e.marks ++ Expr.allMarks rest

end

mutual

/-- The outline of a statement with symbols. -/
def Stmt.outline : Stmt Symbol False negation → Outline
  | .declare symbol => .leaf [.room symbol.name] false
  | .define allowed _ _ => allowed.elim
  | .assign symbol value => .leaf (value.marks ++ symbol.marks) false
  | .print value | .eval value => .leaf value.marks false
  | .ret value => .leaf value.marks true
  | .ifElse condition ifTrue ifFalse =>
    .branch condition.toExpr.marks (Stmt.outlineAll ifTrue) (Stmt.outlineAll ifFalse)
  | .loop condition body => .loop condition.toExpr.marks (Stmt.outlineAll body)
  | .function symbol _ _ => .function symbol.name

def Stmt.outlineAll : List (Stmt Symbol False negation) → List Outline
  | [] => []
  | s :: rest => s.outline :: Stmt.outlineAll rest

end

mutual

theorem Expr.marks_subtracted (e : Expr Symbol negation) : e.subtracted.marks = e.marks := by
  cases e with
  | arith op left right | compare op left right =>
    simp only [Expr.subtracted, Expr.marks, Expr.marks_subtracted left, Expr.marks_subtracted right]
  | call function arguments =>
    simp only [Expr.subtracted, Expr.marks, Expr.allMarks_allSubtracted arguments]
  | neg allowed inner =>
    have zero : (Expr.zero inner.kind : Expr Symbol False).marks = [] := by
      cases inner.kind <;> rfl
    simp only [Expr.subtracted, Expr.marks, zero, Expr.marks_subtracted inner, List.nil_append]
  | _ => rfl

theorem Expr.allMarks_allSubtracted (es : List (Expr Symbol negation)) :
    Expr.allMarks (Expr.allSubtracted es) = Expr.allMarks es := by
  cases es with
  | nil => rfl
  | cons e rest =>
    simp only [Expr.allSubtracted, Expr.allMarks, Expr.marks_subtracted e,
      Expr.allMarks_allSubtracted rest]

end

private theorem Expr.marks_subtract {e : Expr Symbol negation} {e' : Expr Symbol False}
    (done : e.subtract = .ok e') : e'.marks = e.marks := by
  obtain ⟨-, rfl⟩ := Expr.subtract_eq_ok_iff.mp done
  exact e.marks_subtracted

mutual

/-- The code of an expression uses the variables of the expression. -/
@[simp]
theorem Expr.marksOf_instrs (e : Expr Symbol False) : marksOf e.instrs = e.marks := by
  cases e with
  | arith op left right | compare op left right =>
    simp [Expr.instrs, Expr.marks, Instr.marks, Expr.marksOf_instrs left, Expr.marksOf_instrs right]
  | call function arguments =>
    simp [Expr.instrs, Expr.marks, Instr.marks, Expr.marksOf_allInstrs arguments]
  | neg allowed inner => exact allowed.elim
  | _ => simp [Expr.instrs, Expr.marks, Instr.marks]

theorem Expr.marksOf_allInstrs (es : List (Expr Symbol False)) :
    marksOf (Expr.allInstrs es) = Expr.allMarks es := by
  cases es with
  | nil => rfl
  | cons e rest =>
    simp [Expr.allInstrs, Expr.allMarks, Expr.marksOf_instrs e, Expr.marksOf_allInstrs rest]

end

private theorem Condition.marks_subtract {condition : Condition Symbol negation}
    {condition' : Condition Symbol False} (done : condition.subtract = .ok condition') :
    condition'.toExpr.marks = condition.toExpr.marks := by
  rw [Condition.toExpr_subtract done, Expr.marks_subtracted]

end Ast

/-! ### Nested statements -/

namespace Stack.Nested

variable {α : Type}

mutual

/-- The outline of a nested statement, where the code of its leaves is given. -/
def outline (code : α → List Instr) : Nested α → Outline
  | leaf x => .leaf (marksOf (code x)) (isTerminated (code x))
  | ifElse condition ifTrue ifFalse =>
    .branch (marksOf condition.instrs) (outlineAll code ifTrue) (outlineAll code ifFalse)
  | loop condition body => .loop (marksOf condition.instrs) (outlineAll code body)
  | function symbol _ _ => .function symbol.name

def outlineAll (code : α → List Instr) : List (Nested α) → List Outline
  | [] => []
  | s :: rest => s.outline code :: outlineAll code rest

end

/-- Labels make no difference to outlines. -/
theorem outlineAll_labelAll (stmts : List (Nested Straight)) (l : Labelling) :
    outlineAll Block.instrs ((labelAll stmts).run l).1 = outlineAll id stmts := by
  induction stmts using inductionAll generalizing l with
  | nil => rfl
  | leaf instrs rest ih => exact congrArg (_ :: ·) (ih _)
  | ifElse condition ifTrue ifFalse rest first second ih =>
    have arms := congrArg₂ (Outline.branch (marksOf condition.instrs)) (first l)
      (second ((labelAll ifTrue).run l).2)
    exact congrArg₂ (· :: ·) arms (ih _)
  | loop condition body rest inner ih =>
    exact congrArg₂ (Outline.loop (marksOf condition.instrs) · :: ·) (inner l) (ih _)
  | function name parameters body rest _ ih => exact congrArg (Outline.function name.name :: ·) (ih _)

end Stack.Nested

private theorem Ast.Expr.not_isTerminated (e : Expr Symbol False) : isTerminated e.instrs = false := by
  unfold isTerminated
  cases last : e.instrs.getLast? with
  | none => rfl
  | some i => exact e.instrs_plain i (List.mem_of_getLast? last)

namespace Ast.Stmt

variable {negation : Prop}

mutual

/-- A statement keeps its outline when it becomes code. -/
theorem outline_lower {s : Stmt Symbol False negation} {plain : Stmt Symbol False False}
    {t : Nested Straight} (subtracted : s.subtract = .ok plain)
    (straightened : plain.lower.straighten = .ok t) : t.outline id = s.outline := by
  cases s with
  | define allowed symbol value => exact allowed.elim
  | declare symbol =>
    cases lower_inv subtracted straightened
    rfl
  | ifElse condition ifTrue ifFalse =>
    cases lower_inv subtracted straightened with
    | ifElse test first first' second second' =>
      simp only [Nested.outline, outline, outlineAll_lower first first',
        outlineAll_lower second second', Expr.code, Expr.marksOf_instrs,
        Condition.marks_subtract test]
  | loop condition body =>
    cases lower_inv subtracted straightened with
    | loop test round round' =>
      simp only [Nested.outline, outline, outlineAll_lower round round', Expr.code,
        Expr.marksOf_instrs, Condition.marks_subtract test]
  | function name parameters body =>
    cases lower_inv subtracted straightened
    rfl
  | _ =>
    cases lower_inv subtracted straightened
    rename_i own
    simp [Nested.outline, outline, Expr.marks_subtract own, Instr.marks, Expr.not_isTerminated,
      isTerminated_append_singleton, Instr.isTerminator]

theorem outlineAll_lower {stmts : List (Stmt Symbol False negation)}
    {plain : List (Stmt Symbol False False)} {stmts' : List (Nested Straight)}
    (subtracted : subtractAll stmts = .ok plain)
    (straightened : Nested.straightenAll (lowerAll plain) = .ok stmts') :
    Nested.outlineAll id stmts' = outlineAll stmts := by
  cases stmts with
  | nil =>
    cases subtracted
    cases straightened
    rfl
  | cons s rest =>
    obtain ⟨s', t, rest', ts, own, own', others, others', rfl⟩ := lowerAll_cons subtracted straightened
    simp only [Nested.outlineAll, outlineAll, outline_lower own own', outlineAll_lower others others']

end

end Ast.Stmt

end Wabbit
