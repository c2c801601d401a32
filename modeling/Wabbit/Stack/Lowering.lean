import Wabbit.Error

/-!
From trees to code for the stack machine: first the expressions, then the statements around them.
-/

namespace Wabbit

open Stack Ast

mutual

/-- The instructions that compute an expression: its operands from the left to the right, then what
is done with them. -/
def Ast.Expr.instrs : Expr Symbol False → List Instr
  | .int value => [.push (.int value)]
  | .float value => [.push (.float value)]
  | .name symbol => [.load symbol]
  | .arith op left right => left.instrs ++ right.instrs ++ [.arith op left.kind]
  | .compare op left right =>
    left.instrs ++ right.instrs ++ [.compare op (left.kind.join right.kind)]
  | .call function arguments =>
    Expr.allInstrs arguments ++ [.call function.text arguments.length function.kind]
  | .neg allowed _ => allowed.elim

def Ast.Expr.allInstrs : List (Expr Symbol False) → List Instr
  | [] => []
  | e :: rest => e.instrs ++ Expr.allInstrs rest

end

def Ast.Expr.code (e : Expr Symbol False) : Code := ⟨e.instrs, e.kind⟩

mutual

def Ast.Stmt.lower : Stmt Symbol False False → Nested Lowered
  | .declare symbol => .leaf (.declare symbol)
  | .define allowed _ _ => allowed.elim
  | .assign symbol value => .leaf (.assign symbol value.code)
  | .print value => .leaf (.print value.code)
  | .ifElse condition ifTrue ifFalse =>
    .ifElse condition.toExpr.code (Stmt.lowerAll ifTrue) (Stmt.lowerAll ifFalse)
  | .loop condition body => .loop condition.toExpr.code (Stmt.lowerAll body)
  | .function name parameters body => .function name parameters (Stmt.lowerAll body)
  | .ret value => .leaf (.ret value.code)
  | .eval value => .leaf (.eval value.code)

def Ast.Stmt.lowerAll : List (Stmt Symbol False False) → List (Nested Lowered)
  | [] => []
  | s :: rest => s.lower :: Stmt.lowerAll rest

end

/-- The program with code in place of its expressions. -/
def Items.lowerExpressions (program : Items (Stmt Symbol False False)) :
    Items (Nested Lowered) :=
  program.mapFunctions fun f => f.withBody (Stmt.lowerAll f.body)

namespace Stack

/-- The instructions of a statement. The value of an expression that stands alone is left on the
stack. -/
def Lowered.straighten : Lowered → Except CompileError Straight
  | declare symbol =>
    if symbol.isGlobal then .error (.innerGlobal symbol.text) else .ok [.slot symbol.name]
  | assign symbol value => .ok (value.instrs ++ [.store symbol])
  | print value => .ok (value.instrs ++ [.print value.kind])
  | ret value => .ok (value.instrs ++ [.ret value.kind])
  | eval value => .ok value.instrs

mutual

def Nested.straighten : Nested Lowered → Except CompileError (Nested Straight)
  | leaf x => return .leaf (← x.straighten)
  | ifElse condition ifTrue ifFalse =>
    return .ifElse condition (← Nested.straightenAll ifTrue) (← Nested.straightenAll ifFalse)
  | loop condition body => return .loop condition (← Nested.straightenAll body)
  | function name parameters body =>
    return .function name parameters (← Nested.straightenAll body)

def Nested.straightenAll : List (Nested Lowered) → Except CompileError (List (Nested Straight))
  | [] => .ok []
  | s :: rest => return (← s.straighten) :: (← Nested.straightenAll rest)

end

end Stack

/-- The program with instructions in place of its statements. -/
def Items.lowerStatements (program : Items (Nested Lowered)) :
    Except CompileError (Items (Nested Straight)) :=
  program.mapFunctionsM fun f => return f.withBody (← Nested.straightenAll f.body)

end Wabbit
