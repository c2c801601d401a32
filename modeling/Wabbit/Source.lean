import Wabbit.Kind
import Wabbit.Operator
import Wabbit.Span
import Wabbit.Binary64

/-!
The tree of a source text as it is written, before any kinds are known. Every node knows the span of
the text it was read from.
-/

namespace Wabbit.Source

structure Ident where
  name : String
  span : Span
  deriving DecidableEq, Repr

/-- An expression. Parentheses leave no node and do not widen a span. -/
inductive Expr where
  | int (value : Int64) (span : Span)
  | float (value : Binary64) (span : Span)
  | var (name : String) (span : Span)
  | neg (inner : Expr) (span : Span)
  | binary (op : Operator) (left right : Expr) (span : Span)
  | call (function : String) (arguments : List Expr) (span : Span)
  deriving Repr

/-- The text that the expression was read from. -/
def Expr.span : Expr → Span
  | int _ span => span
  | float _ span => span
  | var _ span => span
  | neg _ span => span
  | binary _ _ _ span => span
  | call _ _ span => span

/-- A statement. -/
inductive Stmt where
  /-- A declaration with a kind: `var x int;`. -/
  | declare (name : Ident) (kind : Kind) (span : Span)
  /-- A declaration with a value: `var x = 1;` or `var x int = 1;`. -/
  | define (name : Ident) (kind : Option Kind) (value : Expr) (span : Span)
  | assign (name : Ident) (value : Expr) (span : Span)
  | print (value : Expr) (span : Span)
  | ifElse (condition : Expr) (ifTrue ifFalse : List Stmt) (span : Span)
  | loop (condition : Expr) (body : List Stmt) (span : Span)
  /-- The kind of the result may be left out. -/
  | function (name : Ident) (parameters : List (String × Kind)) (result : Option Kind)
      (body : List Stmt) (span : Span)
  | ret (value : Expr) (span : Span)
  | eval (value : Expr) (span : Span)
  deriving Repr

/-- The text that the statement was read from. -/
def Stmt.span : Stmt → Span
  | declare _ _ span => span
  | define _ _ _ span => span
  | assign _ _ span => span
  | print _ span => span
  | ifElse _ _ _ span => span
  | loop _ _ span => span
  | function _ _ _ _ span => span
  | ret _ span => span
  | eval _ span => span

end Wabbit.Source
