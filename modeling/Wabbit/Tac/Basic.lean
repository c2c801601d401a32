import Wabbit.Label
import Wabbit.Items
import Wabbit.Register

/-!
Three address code: every instruction names its operands, and every register is assigned once.
-/

namespace Wabbit.Tac

inductive Operand where
  | int (value : Int64)
  | float (value : Binary64)
  | register (register : Register)
  deriving DecidableEq, Repr

def Operand.zero : Kind → Operand
  | .integer => .int 0
  | .float => .float .zero

/-- Where a variable lives. -/
inductive Address where
  /-- On the stack of the function. -/
  | slot (name : String)
  | global (name : String)
  deriving DecidableEq, Repr

def Address.ofSymbol (symbol : Ast.Symbol) : Address :=
  match symbol.storage with
  | .global => .global symbol.text
  | .stack => .slot symbol.text

/-- A change of a value's type. -/
inductive Conversion where
  /-- From the outcome of a comparison to an integer. -/
  | flagToInt
  /-- From the outcome of a comparison to a float. -/
  | flagToFloat
  | intToFloat
  | floatToInt
  deriving DecidableEq, Repr

inductive Instr where
  | binary (result : Register) (op : Operator) (kind : Kind) (left right : Operand)
  | convert (result : Register) (conversion : Conversion) (value : Operand)
  /-- Makes room for a variable of the function. -/
  | alloca (name : String) (kind : Kind)
  | load (result : Register) (kind : Kind) (address : Address)
  | store (kind : Kind) (value : Operand) (address : Address)
  | print (kind : Kind) (value : Operand)
  | ret (kind : Kind) (value : Operand)
  | jump (label : Label)
  | branch (condition : Operand) (ifTrue ifFalse : Label)
  | call (result : Register) (function : String) (kind : Kind) (arguments : List (Kind × Operand))
  deriving DecidableEq, Repr

structure Block where
  label : Label
  instrs : List Instr
  deriving DecidableEq, Repr

end Wabbit.Tac
