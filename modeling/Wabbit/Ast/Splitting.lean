import Wabbit.Ast

/-!
Taking declarations with a value apart: `var x = e;` becomes `var x;` and `x = e;`.
-/

namespace Wabbit.Ast

variable {ν : Type} {initializers negation : Prop}

namespace Stmt

mutual

/-- The statements that take the place of a statement. -/
def split : Stmt ν initializers negation → List (Stmt ν False negation)
  | declare name => [.declare name]
  | define _ name value => [.declare name, .assign name value]
  | assign name value => [.assign name value]
  | print value => [.print value]
  | ifElse condition ifTrue ifFalse => [.ifElse condition (splitAll ifTrue) (splitAll ifFalse)]
  | loop condition body => [.loop condition (splitAll body)]
  | function name parameters body => [.function name parameters (splitAll body)]
  | ret value => [.ret value]
  | eval value => [.eval value]

def splitAll : List (Stmt ν initializers negation) → List (Stmt ν False negation)
  | [] => []
  | s :: rest => s.split ++ splitAll rest

end

end Stmt

/-- Takes all declarations with a value apart. -/
def Script.split (script : Script ν initializers negation) : Script ν False negation :=
  Stmt.splitAll script

end Wabbit.Ast
