import Wabbit.Kind
import Wabbit.Operator
import Wabbit.Binary64

/-!
The typed tree of a program. Between the steps of the compiler the tree differs in three respects,
which are parameters of its type: what a name is, whether a declaration may carry a value, and
whether negations occur. Where something does not occur any more its proposition is false, so that
there is no such node.
-/

namespace Wabbit.Ast

/-- A name of the source text and its kind: that of the variable, or of the function's result. -/
structure Name where
  text : String
  kind : Kind
  deriving DecidableEq, Repr

/-- How long a variable lives. -/
inductive Storage where
  /-- As long as the program. -/
  | global
  /-- For one activation of its function. -/
  | stack
  deriving DecidableEq, Repr

/-- A name whose variable or function is known. -/
structure Symbol where
  text : String
  kind : Kind
  storage : Storage
  deriving DecidableEq, Repr

namespace Symbol

def global (text : String) (kind : Kind) : Symbol := ⟨text, kind, .global⟩

/-- The symbol of a variable on the stack. -/
def stack (text : String) (kind : Kind) : Symbol := ⟨text, kind, .stack⟩

def isGlobal (symbol : Symbol) : Bool := symbol.storage = .global

/-- The name of the symbol, whatever its storage. -/
def name (symbol : Symbol) : Name := ⟨symbol.text, symbol.kind⟩

end Symbol

/-- What stands for a variable or a function in a tree. -/
class Named (ν : Type) where
  text : ν → String
  kind : ν → Kind
  /-- The storage, once it is known. -/
  storage : ν → Option Storage

instance : Named Name := ⟨Name.text, Name.kind, fun _ => none⟩

instance : Named Symbol := ⟨Symbol.text, Symbol.kind, fun symbol => some symbol.storage⟩

inductive Expr (ν : Type) (negation : Prop) : Type where
  | int (value : Int64)
  | float (value : Binary64)
  | name (name : ν)
  | arith (op : Arithmetic) (left right : Expr ν negation)
  | compare (op : Comparison) (left right : Expr ν negation)
  | call (function : ν) (arguments : List (Expr ν negation))
  | neg (allowed : negation) (inner : Expr ν negation)

/-- An arithmetic operator applied to operands of different kinds. -/
structure Mismatch where
  op : Arithmetic
  left : Kind
  right : Kind
  deriving DecidableEq, Repr

namespace Expr

variable {ν : Type} {negation : Prop}

def zero : Kind → Expr ν negation
  | .integer => .int 0
  | .float => .float .zero

variable [Named ν]

/-- The kind of the value. Both operands of an arithmetic operator have the same kind; a comparison
has the kind in which it compares. -/
def kind : Expr ν negation → Kind
  | int _ => .integer
  | float _ => .float
  | name n => Named.kind n
  | arith _ left _ => left.kind
  | compare _ left right => left.kind.join right.kind
  | call function _ => Named.kind function
  | neg _ inner => inner.kind

/-- Applies an arithmetic operator to two operands of one kind. -/
def arithmetic (op : Arithmetic) (left right : Expr ν negation) :
    Except Mismatch (Expr ν negation) :=
  if left.kind = right.kind then .ok (.arith op left right)
  else .error ⟨op, left.kind, right.kind⟩

end Expr

/-- The comparison that a branch or a loop depends on. -/
structure Condition (ν : Type) (negation : Prop) where
  op : Comparison
  left : Expr ν negation
  right : Expr ν negation

namespace Condition

variable {ν : Type} {negation : Prop}

def toExpr (condition : Condition ν negation) : Expr ν negation :=
  .compare condition.op condition.left condition.right

/-- The kind in which the operands are compared. -/
def kind [Named ν] (condition : Condition ν negation) : Kind := condition.toExpr.kind

end Condition

inductive Stmt (ν : Type) (initializers negation : Prop) : Type where
  | declare (name : ν)
  /-- A declaration with a value. -/
  | define (allowed : initializers) (name : ν) (value : Expr ν negation)
  | assign (name : ν) (value : Expr ν negation)
  | print (value : Expr ν negation)
  | ifElse (condition : Condition ν negation) (ifTrue ifFalse : List (Stmt ν initializers negation))
  | loop (condition : Condition ν negation) (body : List (Stmt ν initializers negation))
  | function (name : ν) (parameters : List ν) (body : List (Stmt ν initializers negation))
  | ret (value : Expr ν negation)
  | eval (value : Expr ν negation)

abbrev Script (ν : Type) (initializers negation : Prop) := List (Stmt ν initializers negation)

/-- A program as it comes out of the type checker. -/
abbrev Parsed := Script Name True True

/-- A program in which no declaration carries a value. -/
abbrev Split := Script Name False True

/-- A program in which every name is known to be global or on the stack. -/
abbrev Resolved := Script Symbol False True

end Wabbit.Ast
