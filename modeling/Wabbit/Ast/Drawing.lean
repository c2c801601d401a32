import Wabbit.Decimal.Layout
import Wabbit.Ast

/-!
Drawings of typed programs as trees of lines.
-/

namespace Wabbit

/-- A tree of texts. -/
inductive Drawing where
  | node (text : String) (children : List Drawing)

namespace Drawing

mutual

/-- The lines of a drawing: its text behind `front`, and its children, whose lines start with
`left`. -/
def lines (front left : String) : Drawing → List String
  | node text children => (front ++ text) :: childLines left children

/-- The lines of the children of a node. The last child closes the branch. -/
def childLines (left : String) : List Drawing → List String
  | [] => []
  | [child] => child.lines (left ++ "└─ ") (left ++ "   ")
  | child :: rest => child.lines (left ++ "├─ ") (left ++ "│  ") ++ childLines left rest

end

def text (drawing : Drawing) : String := String.join ((drawing.lines "" "").map (· ++ "\n"))

end Drawing

namespace Ast

variable {ν : Type} {initializers negation : Prop} [Named ν]

/-- A name and its kind. -/
def Named.typed (name : ν) : String := Named.text name ++ ": " ++ (Named.kind name).name

mutual

def Expr.drawing : Expr ν negation → Drawing
  | .int value => .node (toString value.toInt) []
  | .float value => .node value.text []
  | .name n => .node (Named.typed n) []
  | .arith op left right =>
    .node (op.sign ++ ": " ++ left.kind.name) [left.drawing, right.drawing]
  | .compare op left right =>
    .node (op.sign ++ ": " ++ (left.kind.join right.kind).name) [left.drawing, right.drawing]
  | .call function arguments => .node ("call " ++ Named.typed function) (Expr.drawings arguments)
  | .neg _ inner => .node "-" [inner.drawing]

def Expr.drawings : List (Expr ν negation) → List Drawing
  | [] => []
  | e :: rest => e.drawing :: Expr.drawings rest

end

mutual

def Stmt.drawing : Stmt ν initializers negation → Drawing
  | .declare name => .node ("var " ++ Named.typed name) []
  | .define _ name value => .node ("var " ++ Named.typed name ++ " =") [value.drawing]
  | .assign name value => .node (Named.typed name ++ " =") [value.drawing]
  | .print value => .node "print" [value.drawing]
  | .ifElse condition ifTrue ifFalse =>
    let first := [condition.toExpr.drawing, .node "then" (Stmt.drawings ifTrue)]
    let second := Stmt.drawings ifFalse
    .node "if" (if second.isEmpty then first else first ++ [.node "else" second])
  | .loop condition body =>
    .node "while" [condition.toExpr.drawing, .node "do" (Stmt.drawings body)]
  | .function name parameters body =>
    let parameters := ", ".intercalate (parameters.map Named.typed)
    .node ("func " ++ Named.text name ++ "(" ++ parameters ++ ") " ++ (Named.kind name).name)
      (Stmt.drawings body)
  | .ret value => .node "return" [value.drawing]
  | .eval value => .node "expression" [value.drawing]

def Stmt.drawings : List (Stmt ν initializers negation) → List Drawing
  | [] => []
  | s :: rest => s.drawing :: Stmt.drawings rest

end

/-- The drawings of all statements of a program, one below the other. -/
def Script.drawn (script : Script ν initializers negation) : String :=
  String.join ((Stmt.drawings script).map Drawing.text)

end Ast

end Wabbit
