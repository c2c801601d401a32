import Wabbit.Proofs.Lowering.Sound

/-!
What a program refers to outside of the function at hand: the functions that it calls, each with the
kinds of the arguments and of the result, and the global variables that it reads and writes, each
with its kind. This is first said of trees and then of the code that they become.
-/

namespace Wabbit

open Ast Stack

/-- What has to be known of a function to call it. -/
structure Header where
  name : String
  parameters : List Kind
  result : Kind
  deriving DecidableEq, Repr

/-- The header of a function. -/
def FunDef.header {β : Type} (f : FunDef β) : Header :=
  ⟨f.name.text, f.parameters.map Symbol.kind, f.name.kind⟩

/-- A use of something that is not local. -/
inductive Reference where
  /-- A call, with the header that its callee should have. -/
  | call (header : Header)
  /-- A global variable is read or written. -/
  | access (name : Name)
  deriving DecidableEq, Repr

namespace Reference

/-- The header that is called. -/
def call? : Reference → Option Header
  | call header => some header
  | access _ => none

/-- The global variable that is read or written. -/
def access? : Reference → Option Name
  | call _ => none
  | access name => some name

theorem mem_filterMap_call? {references : List Reference} {header : Header} :
    header ∈ references.filterMap call? ↔ .call header ∈ references := by
  rw [List.mem_filterMap]
  constructor
  · rintro ⟨reference, member, called⟩
    cases reference with
    | call _ => exact Option.some.inj called ▸ member
    | access _ => cases called
  · exact fun member => ⟨_, member, rfl⟩

theorem mem_filterMap_access? {references : List Reference} {name : Name} :
    name ∈ references.filterMap access? ↔ .access name ∈ references := by
  rw [List.mem_filterMap]
  constructor
  · rintro ⟨reference, member, read⟩
    cases reference with
    | call _ => cases read
    | access _ => exact Option.some.inj read ▸ member
  · exact fun member => ⟨_, member, rfl⟩

end Reference

/-- Only a global variable is a reference. -/
def Ast.Symbol.references (symbol : Symbol) : List Reference :=
  match symbol.storage with
  | .global => [.access symbol.name]
  | .stack => []

/-! ### Trees -/

namespace Ast

variable {initializers negation : Prop}

mutual

/-- The references of an expression, in the order of its evaluation. -/
def Expr.references : Expr Symbol negation → List Reference
  | .int _ | .float _ => []
  | .name symbol => symbol.references
  | .arith _ left right | .compare _ left right => left.references ++ right.references
  | .call function arguments =>
    Expr.allReferences arguments ++ [.call ⟨function.text, arguments.map Expr.kind, function.kind⟩]
  | .neg _ inner => inner.references

def Expr.allReferences : List (Expr Symbol negation) → List Reference
  | [] => []
  | e :: rest => e.references ++ Expr.allReferences rest

end

mutual

/-- The references of a statement and of all statements inside it. -/
def Stmt.references : Stmt Symbol initializers negation → List Reference
  | .declare _ => []
  | .define _ symbol value | .assign symbol value => value.references ++ symbol.references
  | .print value | .ret value | .eval value => value.references
  | .ifElse condition ifTrue ifFalse =>
    condition.toExpr.references ++ (Stmt.allReferences ifTrue ++ Stmt.allReferences ifFalse)
  | .loop condition body => condition.toExpr.references ++ Stmt.allReferences body
  | .function _ _ body => Stmt.allReferences body

def Stmt.allReferences : List (Stmt Symbol initializers negation) → List Reference
  | [] => []
  | s :: rest => s.references ++ Stmt.allReferences rest

end

theorem Stmt.allReferences_eq_flatMap (stmts : List (Stmt Symbol initializers negation)) :
    Stmt.allReferences stmts = stmts.flatMap Stmt.references := by
  induction stmts with
  | nil => rfl
  | cons s rest ih => rw [Stmt.allReferences, ih, List.flatMap_cons]

@[simp]
theorem Expr.references_zero (kind : Kind) :
    (Expr.zero kind : Expr Symbol negation).references = [] := by
  cases kind <;> rfl

/-! ### Negations -/

mutual

theorem Expr.references_subtracted (e : Expr Symbol negation) :
    e.subtracted.references = e.references := by
  cases e with
  | arith op left right | compare op left right =>
    simp only [Expr.subtracted, Expr.references, Expr.references_subtracted left,
      Expr.references_subtracted right]
  | call function arguments =>
    simp only [Expr.subtracted, Expr.references, Expr.allReferences_allSubtracted arguments,
      Expr.map_kind_allSubtracted]
  | neg allowed inner =>
    simp only [Expr.subtracted, Expr.references, Expr.references_zero,
      Expr.references_subtracted inner, List.nil_append]
  | _ => rfl

theorem Expr.allReferences_allSubtracted (es : List (Expr Symbol negation)) :
    Expr.allReferences (Expr.allSubtracted es) = Expr.allReferences es := by
  cases es with
  | nil => rfl
  | cons e rest =>
    simp only [Expr.allSubtracted, Expr.allReferences, Expr.references_subtracted e,
      Expr.allReferences_allSubtracted rest]

end

/-- Writing negations as subtractions changes neither kinds nor references. -/
theorem Expr.references_subtract {e : Expr Symbol negation} {e' : Expr Symbol False}
    (done : e.subtract = .ok e') : e'.kind = e.kind ∧ e'.references = e.references := by
  obtain ⟨-, rfl⟩ := Expr.subtract_eq_ok_iff.mp done
  exact ⟨e.kind_subtracted, e.references_subtracted⟩

theorem Condition.references_subtract {condition : Condition Symbol negation}
    {condition' : Condition Symbol False} (done : condition.subtract = .ok condition') :
    condition'.toExpr.references = condition.toExpr.references := by
  rw [Condition.toExpr_subtract done, Expr.references_subtracted]

end Ast

/-! ### Code -/

namespace Stack

/-- The kinds of the results of an instruction. -/
def Instr.kinds : Instr → List Kind
  | push (.int _) => [.integer]
  | push (.float _) => [.float]
  | load symbol => [symbol.kind]
  | arith _ kind | compare _ kind | call _ _ kind => [kind]
  | _ => []

/-- The references of an instruction whose operands, the topmost first, have the given kinds. -/
def Instr.references (operands : List Kind) : Instr → List Reference
  | load symbol | store symbol => symbol.references
  | call function _ kind => [.call ⟨function, operands.reverse, kind⟩]
  | _ => []

/-- The references of some instructions on a stack of the given kinds. -/
def referencesFrom (kinds : List Kind) : List Instr → List Reference
  | [] => []
  | i :: rest =>
    i.references (kinds.take i.takes) ++ referencesFrom (i.kinds ++ kinds.drop i.takes) rest

/-- The kinds on the stack behind some instructions. -/
def kindsAfter (kinds : List Kind) : List Instr → List Kind
  | [] => kinds
  | i :: rest => kindsAfter (i.kinds ++ kinds.drop i.takes) rest

/-- The references of some instructions that find an empty stack. -/
def referencesOf (instrs : List Instr) : List Reference := referencesFrom [] instrs

private theorem Instr.length_kinds (i : Instr) : i.kinds.length = i.gives := by
  cases i with
  | push value => cases value <;> rfl
  | _ => rfl

theorem referencesFrom_append (kinds : List Kind) (front back : List Instr) :
    referencesFrom kinds (front ++ back) =
      referencesFrom kinds front ++ referencesFrom (kindsAfter kinds front) back := by
  induction front generalizing kinds with
  | nil => rfl
  | cons i rest ih => simp [referencesFrom, kindsAfter, ih]

/-- What lies below the operands of some code makes no difference to its references. -/
theorem referencesFrom_below {instrs : List Instr} {kinds : List Kind}
    (known : (heightAfter kinds.length instrs).isSome = true) (below : List Kind) :
    referencesFrom (kinds ++ below) instrs = referencesFrom kinds instrs := by
  induction instrs generalizing kinds with
  | nil => rfl
  | cons i rest ih =>
    unfold heightAfter at known
    split at known
    · cases known
    · rename_i enough
      have enough : i.takes ≤ kinds.length := Nat.le_of_not_lt enough
      have height : (i.kinds ++ kinds.drop i.takes).length = kinds.length - i.takes + i.gives := by
        rw [List.length_append, i.length_kinds, List.length_drop, Nat.add_comm]
      rw [← height] at known
      rw [referencesFrom, referencesFrom, List.take_append_of_le_length enough,
        List.drop_append_of_le_length enough, ← List.append_assoc, ih known]

/-- Code that takes nothing from the stack that it has not put there has the same references behind
any other code. -/
theorem referencesOf_append (front : List Instr) {back : List Instr}
    (known : (heightAfter 0 back).isSome = true) :
    referencesOf (front ++ back) = referencesOf front ++ referencesOf back := by
  have same := @referencesFrom_below back [] known (kindsAfter [] front)
  rw [List.nil_append] at same
  rw [referencesOf, referencesFrom_append, same]
  rfl

end Stack

namespace Ast

mutual

/-- The code of an expression has its references, and puts a value of its kind on the stack. -/
theorem Expr.referencesFrom_instrs (e : Expr Symbol False) (kinds : List Kind)
    (rest : List Instr) :
    referencesFrom kinds (e.instrs ++ rest) =
      e.references ++ referencesFrom (e.kind :: kinds) rest := by
  cases e with
  | int value | float value => rfl
  | name symbol => rfl
  | arith op left right | compare op left right =>
    simp only [Expr.instrs, List.append_assoc, List.cons_append, List.nil_append]
    rw [left.referencesFrom_instrs, right.referencesFrom_instrs]
    simp [Expr.references, Expr.kind, referencesFrom, Instr.references, Instr.kinds, Instr.takes]
  | call function arguments =>
    simp only [Expr.instrs, List.append_assoc, List.cons_append, List.nil_append]
    rw [Expr.referencesFrom_allInstrs arguments]
    have count : arguments.length = (arguments.map Expr.kind).reverse.length := by simp
    simp only [Expr.references, Expr.kind, referencesFrom, Instr.references, Instr.kinds,
      Instr.takes, count, List.take_left, List.drop_left, List.reverse_reverse, List.append_assoc,
      List.cons_append, List.nil_append]
    rfl
  | neg allowed inner => exact allowed.elim

theorem Expr.referencesFrom_allInstrs (es : List (Expr Symbol False)) (kinds : List Kind)
    (rest : List Instr) :
    referencesFrom kinds (Expr.allInstrs es ++ rest) =
      Expr.allReferences es ++ referencesFrom ((es.map Expr.kind).reverse ++ kinds) rest := by
  cases es with
  | nil => rfl
  | cons e others =>
    rw [Expr.allInstrs, List.append_assoc, e.referencesFrom_instrs,
      Expr.referencesFrom_allInstrs others]
    simp [Expr.allReferences]

end

@[simp]
theorem Expr.referencesOf_instrs_append (e : Expr Symbol False) (rest : List Instr) :
    referencesOf (e.instrs ++ rest) = e.references ++ referencesFrom [e.kind] rest :=
  e.referencesFrom_instrs [] rest

@[simp]
theorem Expr.referencesOf_instrs (e : Expr Symbol False) : referencesOf e.instrs = e.references := by
  have same := e.referencesOf_instrs_append []
  rwa [List.append_nil, referencesFrom, List.append_nil] at same

end Ast

end Wabbit
