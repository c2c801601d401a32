import Wabbit.Source

/-!
Source trees without the places they were read from.
-/

namespace Wabbit.Source

/-- The name with an empty span. -/
def Ident.bare (ident : Ident) : Ident := ⟨ident.name, {}⟩

mutual

/-- The expression with empty spans. -/
def Expr.bare : Expr → Expr
  | .int value _ => .int value {}
  | .float value _ => .float value {}
  | .var name _ => .var name {}
  | .neg inner _ => .neg inner.bare {}
  | .binary op left right _ => .binary op left.bare right.bare {}
  | .call callee arguments _ => .call callee (Expr.bareAll arguments) {}

/-- Expressions with empty spans. -/
def Expr.bareAll : List Expr → List Expr
  | [] => []
  | first :: rest => first.bare :: Expr.bareAll rest

end

theorem Expr.bareAll_eq_map (values : List Expr) : Expr.bareAll values = values.map Expr.bare := by
  induction values with
  | nil => rfl
  | cons first rest ih => rw [Expr.bareAll, ih, List.map_cons]

mutual

/-- The statement with empty spans. -/
def Stmt.bare : Stmt → Stmt
  | .declare name kind _ => .declare name.bare kind {}
  | .define name kind value _ => .define name.bare kind value.bare {}
  | .assign name value _ => .assign name.bare value.bare {}
  | .print value _ => .print value.bare {}
  | .ifElse condition ifTrue ifFalse _ =>
    .ifElse condition.bare (Stmt.bareAll ifTrue) (Stmt.bareAll ifFalse) {}
  | .loop condition body _ => .loop condition.bare (Stmt.bareAll body) {}
  | .function name parameters result body _ =>
    .function name.bare parameters result (Stmt.bareAll body) {}
  | .ret value _ => .ret value.bare {}
  | .eval value _ => .eval value.bare {}

/-- Statements with empty spans. -/
def Stmt.bareAll : List Stmt → List Stmt
  | [] => []
  | first :: rest => first.bare :: Stmt.bareAll rest

end

end Wabbit.Source
