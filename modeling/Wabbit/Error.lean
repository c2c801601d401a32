import Wabbit.Typing
import Wabbit.Stack.Printer

/-!
What can go wrong behind the type checker. Apart from mismatched kinds, every error says that a step
was handed something that an earlier step takes care of.
-/

namespace Wabbit

/-- Why a step of the compiler fails. -/
inductive CompileError where
  | mismatch (m : Ast.Mismatch)
  /-- A global variable is declared inside a function. -/
  | innerGlobal (name : String)
  /-- A function does not end in a return. -/
  | missingReturn (function : String)
  /-- A function stands inside another one. -/
  | innerFunction (name : String)
  /-- An instruction takes more from the stack than there is. -/
  | underflow (instr : Stack.Instr)
  deriving DecidableEq, Repr

namespace CompileError

/-- The message for a construct that a step has no code for. -/
def unresolved (stage construct : String) : Diagnostic :=
  { message := s!"The {stage} stage cannot handle {construct}"
    help := some "This is a bug in the compiler: a stage ran out of order or skipped a case" }

def diagnostic (labels : Labels) : CompileError → Diagnostic
  | mismatch m =>
    { message := m.message
      help := some ("Both operands of `" ++ m.op.sign ++ "` must have the same type") }
  | innerGlobal name =>
    unresolved "statement lowering" s!"a global declaration of `{name}` inside a function"
  | missingReturn function =>
    unresolved "control flow linking" s!"function `{function}` without a final return"
  | innerFunction name => unresolved "control flow linking" s!"the nested function `{name}`"
  | underflow instr =>
    { message := "No operand left on the stack for `" ++ instr.text labels ++ "`"
      help := some "This is a bug in the compiler: the lowered code does not balance the stack" }

end CompileError

end Wabbit
