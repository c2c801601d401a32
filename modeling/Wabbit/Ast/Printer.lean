import Wabbit.Listing
import Wabbit.Decimal.Layout
import Wabbit.Ast

/-!
Listings of typed trees. They read like source text; a resolved name is shown with its storage.
-/

namespace Wabbit.Ast

variable {ν : Type} {initializers negation : Prop} [Named ν]

/-- A name as it stands in an expression. -/
def Named.display (name : ν) : String :=
  match Named.storage name with
  | none => Named.text name
  | some .global => "global[" ++ Named.text name ++ "]"
  | some .stack => "local[" ++ Named.text name ++ "]"

def Named.declaration (name : ν) : String :=
  let keyword := match Named.storage name with
    | none => "var"
    | some .global => "global"
    | some .stack => "local"
  keyword ++ " " ++ Named.text name ++ " " ++ (Named.kind name).name ++ ";"

namespace Expr

/-- Whether the expression is an operator applied to two operands. -/
def isBinary : Expr ν negation → Bool
  | arith _ _ _ => true
  | compare _ _ _ => true
  | _ => false

/-- Puts an operator inside another operator into parentheses. -/
def parenthesize (e : Expr ν negation) (text : String) : String :=
  if e.isBinary then "(" ++ text ++ ")" else text

mutual

def text : Expr ν negation → String
  | int value => toString value.toInt
  | float value => value.text
  | name n => Named.display n
  | arith op left right =>
    left.parenthesize left.text ++ " " ++ op.sign ++ " " ++ right.parenthesize right.text
  | compare op left right =>
    left.parenthesize left.text ++ " " ++ op.sign ++ " " ++ right.parenthesize right.text
  | call function arguments =>
    Named.display function ++ "(" ++ ", ".intercalate (texts arguments) ++ ")"
  | neg _ inner => "-" ++ inner.parenthesize inner.text

def texts : List (Expr ν negation) → List String
  | [] => []
  | e :: rest => e.text :: texts rest

end

end Expr

namespace Stmt

mutual

def line (depth : Nat) : Stmt ν initializers negation → String
  | declare name => Named.declaration name
  | define _ name value => "var " ++ Named.text name ++ " = " ++ value.text ++ ";"
  | assign name value => Named.display name ++ " = " ++ value.text ++ ";"
  | print value => "print " ++ value.text ++ ";"
  | ifElse condition ifTrue ifFalse =>
    Listing.branch depth condition.toExpr.text
      (lines (depth + 1) ifTrue) (lines (depth + 1) ifFalse)
  | loop condition body => Listing.loop depth condition.toExpr.text (lines (depth + 1) body)
  | function name parameters body =>
    Listing.function depth (Named.text name)
      (parameters.map fun p => (Named.text p, (Named.kind p).name)) (Named.kind name).name
      (lines (depth + 1) body)
  | ret value => "return " ++ value.text ++ ";"
  | eval value => value.text ++ ";"

def lines (depth : Nat) : List (Stmt ν initializers negation) → List String
  | [] => []
  | s :: rest => (Listing.indent depth ++ s.line depth) :: lines depth rest

end

end Stmt

def Script.text (script : Script ν initializers negation) : String :=
  Listing.program (Stmt.lines 0 script)

end Wabbit.Ast
