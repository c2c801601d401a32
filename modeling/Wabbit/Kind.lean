/-!
The two kinds of number in the language, and the print functions that the emitted program links
against, one for each kind.
-/

namespace Wabbit

/-- Every value of a program is an integer or a float. -/
inductive Kind where
  | integer
  | float
  deriving DecidableEq, Repr

namespace Kind

/-- The keyword of the kind in source text. -/
def name : Kind → String
  | integer => "int"
  | float => "float"

/-- The LLVM type that holds values of the kind. -/
def llvm : Kind → String
  | integer => "i32"
  | float => "double"

/-- The zero of the kind as an LLVM constant. -/
def llvmZero : Kind → String
  | integer => "0"
  | float => "0.0"

/-- The kind in which two operands are compared: float as soon as one of them is a float. -/
def join : Kind → Kind → Kind
  | integer, integer => integer
  | _, _ => float

end Kind

/-- A function of the linked support library, known by its signature only. -/
structure Prototype where
  name : String
  parameter : Kind
  result : Kind
  deriving DecidableEq, Repr

namespace Prototype

/-- The function that prints a value of the given kind. -/
def print : Kind → Prototype
  | .integer => ⟨"_print_int", .integer, .integer⟩
  | .float => ⟨"_print_float", .float, .integer⟩

/-- All functions that every emitted program declares, in the order of their declarations. -/
def all : List Prototype := [print .integer, print .float]

def declaration (p : Prototype) : String :=
  "declare " ++ p.result.llvm ++ " @" ++ p.name ++ "(" ++ p.parameter.llvm ++ ")"

end Prototype

end Wabbit
