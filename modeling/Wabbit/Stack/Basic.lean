import Wabbit.Label
import Wabbit.Items

/-!
Code for a stack machine. The statements around it keep their structure for a while: their leaves
get flatter with every step, until branches and loops are dissolved into blocks that jump to each
other.
-/

namespace Wabbit.Stack

open Ast (Name Symbol)

inductive Literal where
  | int (value : Int64)
  | float (value : Binary64)
  deriving DecidableEq, Repr

/-- An instruction. Operands are taken from the stack, results are put there. -/
inductive Instr where
  | push (value : Literal)
  | load (symbol : Symbol)
  | store (symbol : Symbol)
  | arith (op : Arithmetic) (kind : Kind)
  | compare (op : Comparison) (kind : Kind)
  /-- Takes the given number of arguments, the last one on top. -/
  | call (function : String) (arguments : Nat) (kind : Kind)
  | print (kind : Kind)
  | ret (kind : Kind)
  | goto (label : Label)
  | branch (ifTrue ifFalse : Label)
  /-- Makes room for a variable of the function. -/
  | slot (name : Name)
  deriving DecidableEq, Repr

/-- Whether control never goes on to the next instruction. -/
def Instr.isTerminator : Instr → Bool
  | ret _ => true
  | goto _ => true
  | branch _ _ => true
  | _ => false

/-- Whether the last of some instructions is a terminator. -/
def isTerminated (instrs : List Instr) : Bool := instrs.getLast?.any Instr.isTerminator

/-- Instructions that compute one value. -/
structure Code where
  instrs : List Instr
  kind : Kind
  deriving DecidableEq, Repr

/-- A leaf, or a branch, loop or function around leaves. -/
inductive Nested (α : Type) where
  | leaf (x : α)
  | ifElse (condition : Code) (ifTrue ifFalse : List (Nested α))
  | loop (condition : Code) (body : List (Nested α))
  | function (name : Symbol) (parameters : List Symbol) (body : List (Nested α))

/-- A statement with code in place of its expressions. -/
inductive Lowered where
  | declare (symbol : Symbol)
  | assign (symbol : Symbol) (value : Code)
  | print (value : Code)
  | ret (value : Code)
  | eval (value : Code)
  deriving DecidableEq, Repr

/-- A statement as instructions without any jump. -/
abbrev Straight := List Instr

structure Block where
  label : Label
  instrs : List Instr
  deriving DecidableEq, Repr

end Wabbit.Stack
