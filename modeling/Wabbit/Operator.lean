/-!
The binary operators of the language: arithmetic on two operands of one kind, and comparisons.
-/

namespace Wabbit

inductive Arithmetic where
  | add
  | sub
  | mul
  | div
  deriving DecidableEq, Repr

/-- The sign of the operator in source text. -/
def Arithmetic.sign : Arithmetic → String
  | add => "+"
  | sub => "-"
  | mul => "*"
  | div => "/"

inductive Comparison where
  | less
  | lessEq
  | greater
  | greaterEq
  | equal
  | notEqual
  deriving DecidableEq, Repr

def Comparison.sign : Comparison → String
  | less => "<"
  | lessEq => "<="
  | greater => ">"
  | greaterEq => ">="
  | equal => "=="
  | notEqual => "!="

inductive Operator where
  | arithmetic (op : Arithmetic)
  | compare (op : Comparison)
  deriving DecidableEq, Repr

def Operator.sign : Operator → String
  | arithmetic op => op.sign
  | compare op => op.sign

end Wabbit
