import Wabbit.Stack.Basic

/-!
Listings of stack machine code. Labels are shown by their current names.
-/

namespace Wabbit.Stack

open Ast (Named)

def Literal.text : Literal → String
  | int value => toString value.toInt
  | float value => value.text

def arithName : Arithmetic → String
  | .add => "ADD"
  | .sub => "SUB"
  | .mul => "MUL"
  | .div => "DIV"

def compareName : Comparison → String
  | .less => "LT"
  | .lessEq => "LE"
  | .greater => "GT"
  | .greaterEq => "GE"
  | .equal => "EQ"
  | .notEqual => "NE"

/-- The suffix that tells where a variable lives. -/
def storageName : Ast.Storage → String
  | .global => "GLOBAL"
  | .stack => "LOCAL"

def Instr.text (labels : Labels) : Instr → String
  | push value => "PUSH(" ++ value.text ++ ")"
  | load symbol => "LOAD_" ++ storageName symbol.storage ++ "(" ++ symbol.text ++ ")"
  | store symbol => "STORE_" ++ storageName symbol.storage ++ "(" ++ symbol.text ++ ")"
  | arith op _ => arithName op ++ "()"
  | compare op _ => compareName op ++ "()"
  | call function arguments _ => "CALL(" ++ function ++ ", " ++ toString arguments ++ ")"
  | print _ => "PRINT()"
  | ret _ => "RETURN()"
  | goto label => "GOTO('" ++ labels.nameOf label ++ "')"
  | branch ifTrue ifFalse =>
    "CBRANCH('" ++ labels.nameOf ifTrue ++ "', '" ++ labels.nameOf ifFalse ++ "')"
  | slot name => "LOCAL(" ++ name.text ++ ")"

/-- Code on one line. -/
def Code.text (labels : Labels) (code : Code) : String :=
  "EXPR([" ++ ", ".intercalate (code.instrs.map (Instr.text labels)) ++ "])"

/-- Instructions on lines of their own, up to the bracket that closes them. -/
def instrLines (labels : Labels) (depth : Nat) (instrs : List Instr) : String :=
  let line (i : Instr) := "\n" ++ Listing.indent (depth + 1) ++ i.text labels
  "[" ++ ",".intercalate (instrs.map line) ++ "\n" ++ Listing.indent depth ++ "])"

def Lowered.line (labels : Labels) (_depth : Nat) : Lowered → String
  | declare symbol => Named.declaration symbol
  | assign symbol value => Named.display symbol ++ " = " ++ value.text labels ++ ";"
  | print value => "print " ++ value.text labels ++ ";"
  | ret value => "return " ++ value.text labels ++ ";"
  | eval value => value.text labels ++ ";"

def straightLine (labels : Labels) (depth : Nat) (instrs : Straight) : String :=
  "STATEMENT(" ++ instrLines labels depth instrs

def Block.line (labels : Labels) (depth : Nat) (block : Block) : String :=
  "BLOCK('" ++ labels.nameOf block.label ++ "'," ++ instrLines labels depth block.instrs

def blockLines (labels : Labels) (depth : Nat) (blocks : List Block) : List String :=
  blocks.map fun block => Listing.indent depth ++ block.line labels depth

namespace Nested

variable {α : Type}

mutual

/-- The lines of a nested statement, given those of its leaves. -/
def line (labels : Labels) (leafLine : Nat → α → String) (depth : Nat) : Nested α → String
  | leaf x => leafLine depth x
  | ifElse condition ifTrue ifFalse =>
    Listing.branch depth (condition.text labels) (lines labels leafLine (depth + 1) ifTrue)
      (lines labels leafLine (depth + 1) ifFalse)
  | loop condition body =>
    Listing.loop depth (condition.text labels) (lines labels leafLine (depth + 1) body)
  | function name parameters body =>
    Listing.function depth name.text (parameters.map fun p => (p.text, p.kind.name)) name.kind.name
      (lines labels leafLine (depth + 1) body)

def lines (labels : Labels) (leafLine : Nat → α → String) (depth : Nat) :
    List (Nested α) → List String
  | [] => []
  | s :: rest =>
    (Listing.indent depth ++ s.line labels leafLine depth) :: lines labels leafLine depth rest

end

end Nested

end Wabbit.Stack
