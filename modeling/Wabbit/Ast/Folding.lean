import Wabbit.Ast

/-!
Arithmetic on literals, done before the program runs. Integers are 32 bits wide in the emitted
program, so a sum or quotient that does not fit stays as it is, and so does a division by zero.
Division rounds towards negative infinity. Comparisons have their operands folded and stay.
-/

namespace Wabbit

namespace Arithmetic

/-- The exact result on 64 bit integers, the quotient rounded down, if there is one of 64 bits. -/
def onInt64 (op : Arithmetic) (left right : Int64) : Option Int64 :=
  match op with
  | add => if left.toBitVec.saddOverflow right.toBitVec then none else some (left + right)
  | sub => if left.toBitVec.ssubOverflow right.toBitVec then none else some (left - right)
  | mul => if left.toBitVec.smulOverflow right.toBitVec then none else some (left * right)
  | div =>
    if right = 0 ∨ left.toBitVec.sdivOverflow right.toBitVec then none
    else if left % right ≠ 0 ∧ (left < 0 ↔ ¬ right < 0) then some (left / right - 1)
    else some (left / right)

def onBinary64 : Arithmetic → Binary64 → Binary64 → Binary64
  | add => .add
  | sub => .sub
  | mul => .mul
  | div => .div

end Arithmetic

/-- Whether an integer has at most 32 bits with its sign. -/
def fitsInt32 (value : Int64) : Bool :=
  Int32.minValue.toInt ≤ value.toInt ∧ value.toInt ≤ Int32.maxValue.toInt

namespace Ast

variable {ν : Type} {initializers negation : Prop} [Named ν]

namespace Expr

/-- The negation of an expression, computed for literals whose negation fits. -/
def foldNeg (allowed : negation) : Expr ν negation → Expr ν negation
  | int value => if fitsInt32 (-value) then .int (-value) else .neg allowed (.int value)
  | float value => .float value.neg
  | e => .neg allowed e

/-- The literal that an operator on two literals amounts to. -/
def literal? (op : Arithmetic) : Expr ν negation → Expr ν negation → Option (Expr ν negation)
  | int left, int right => ((op.onInt64 left right).filter fitsInt32).map int
  | float left, float right => some (.float (op.onBinary64 left right))
  | _, _ => none

mutual

/-- Folds an expression from the inside out. -/
def fold : Expr ν negation → Except Mismatch (Expr ν negation)
  | int value => .ok (.int value)
  | float value => .ok (.float value)
  | name n => .ok (.name n)
  | arith op left right => do
    let left ← left.fold
    let right ← right.fold
    match literal? op left right with
    | some literal => .ok literal
    | none => arithmetic op left right
  | compare op left right => return .compare op (← left.fold) (← right.fold)
  | call function arguments => return .call function (← foldAll arguments)
  | neg allowed inner => return foldNeg allowed (← inner.fold)

def foldAll : List (Expr ν negation) → Except Mismatch (List (Expr ν negation))
  | [] => .ok []
  | e :: rest => return (← e.fold) :: (← foldAll rest)

end

end Expr

def Condition.fold (condition : Condition ν negation) : Except Mismatch (Condition ν negation) :=
  return ⟨condition.op, ← condition.left.fold, ← condition.right.fold⟩

namespace Stmt

mutual

/-- Folds all expressions of a statement. -/
def fold : Stmt ν initializers negation → Except Mismatch (Stmt ν initializers negation)
  | declare name => .ok (.declare name)
  | define allowed name value => return .define allowed name (← value.fold)
  | assign name value => return .assign name (← value.fold)
  | print value => return .print (← value.fold)
  | ifElse condition ifTrue ifFalse =>
    return .ifElse (← condition.fold) (← foldAll ifTrue) (← foldAll ifFalse)
  | loop condition body => return .loop (← condition.fold) (← foldAll body)
  | function name parameters body => return .function name parameters (← foldAll body)
  | ret value => return .ret (← value.fold)
  | eval value => return .eval (← value.fold)

def foldAll :
    List (Stmt ν initializers negation) → Except Mismatch (List (Stmt ν initializers negation))
  | [] => .ok []
  | s :: rest => return (← s.fold) :: (← foldAll rest)

end

end Stmt

def Script.fold (script : Script ν initializers negation) :
    Except Mismatch (Script ν initializers negation) :=
  Stmt.foldAll script

end Ast

end Wabbit
