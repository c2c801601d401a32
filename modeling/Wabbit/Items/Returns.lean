import Wabbit.Items

/-!
Making every function end in a return statement.
-/

namespace Wabbit

open Ast

variable {negation : Prop}

def Ast.Stmt.isReturn : Stmt Symbol False negation → Bool
  | .ret _ => true
  | _ => false

/-- Adds `return 0;` of the function's kind unless the last statement is a return. Returns inside
branches do not count. -/
def FunDef.ensureReturn (f : FunDef (Stmt Symbol False negation)) :
    FunDef (Stmt Symbol False negation) :=
  if f.body.getLast?.any Stmt.isReturn then f
  else f.withBody (f.body ++ [.ret (.zero f.name.kind)])

/-- Makes every function end in a return. -/
def Items.ensureReturns : Items (Stmt Symbol False negation) → Items (Stmt Symbol False negation) :=
  Items.mapFunctions FunDef.ensureReturn

end Wabbit
