import Wabbit.Items

/-!
Writing negations as subtractions: `-e` becomes `0 - e`.
-/

namespace Wabbit

open Ast

namespace Ast

variable {negation : Prop}

mutual

/-- The expression without negations. -/
def Expr.subtract : Expr Symbol negation → Except Mismatch (Expr Symbol False)
  | .int value => .ok (.int value)
  | .float value => .ok (.float value)
  | .name n => .ok (.name n)
  | .arith op left right => do
    let left ← left.subtract
    let right ← right.subtract
    Expr.arithmetic op left right
  | .compare op left right => return .compare op (← left.subtract) (← right.subtract)
  | .call function arguments => return .call function (← Expr.subtractAll arguments)
  | .neg _ inner => do
    let inner ← inner.subtract
    Expr.arithmetic .sub (.zero inner.kind) inner

def Expr.subtractAll : List (Expr Symbol negation) → Except Mismatch (List (Expr Symbol False))
  | [] => .ok []
  | e :: rest => return (← e.subtract) :: (← Expr.subtractAll rest)

end

def Condition.subtract (condition : Condition Symbol negation) :
    Except Mismatch (Condition Symbol False) :=
  return ⟨condition.op, ← condition.left.subtract, ← condition.right.subtract⟩

mutual

def Stmt.subtract : Stmt Symbol False negation → Except Mismatch (Stmt Symbol False False)
  | .declare symbol => .ok (.declare symbol)
  | .define allowed _ _ => allowed.elim
  | .assign symbol value => return .assign symbol (← value.subtract)
  | .print value => return .print (← value.subtract)
  | .ifElse condition ifTrue ifFalse =>
    return .ifElse (← condition.subtract) (← Stmt.subtractAll ifTrue) (← Stmt.subtractAll ifFalse)
  | .loop condition body => return .loop (← condition.subtract) (← Stmt.subtractAll body)
  | .function name parameters body =>
    return .function name parameters (← Stmt.subtractAll body)
  | .ret value => return .ret (← value.subtract)
  | .eval value => return .eval (← value.subtract)

def Stmt.subtractAll :
    List (Stmt Symbol False negation) → Except Mismatch (List (Stmt Symbol False False))
  | [] => .ok []
  | s :: rest => return (← s.subtract) :: (← Stmt.subtractAll rest)

end

end Ast

variable {negation : Prop}

/-- The program without negations. -/
def Items.eliminateNegation (program : Items (Stmt Symbol False negation)) :
    Except Mismatch (Items (Stmt Symbol False False)) :=
  program.mapFunctionsM fun f => return f.withBody (← Stmt.subtractAll f.body)

end Wabbit
