import Wabbit.Flow
import Wabbit.Stack.Lowering
import Wabbit.Tac.Assembly
import Wabbit.Ast.Printer

/-!
A program in any of the forms it takes between source text and assembly.
-/

namespace Wabbit

open Ast Stack

/-- A program, in order of the forms it goes through. -/
inductive Program where
  | parsed (script : Parsed)
  | split (script : Split)
  | resolved (script : Resolved)
  /-- Only global variables and functions are left at the top level. -/
  | items (program : Items (Stmt Symbol False True))
  /-- No negations are left. -/
  | plain (program : Items (Stmt Symbol False False))
  | lowered (program : Items (Nested Lowered))
  | straight (program : Items (Nested Straight))
  | grouped (program : Items (Nested Stack.Block))
  | linked (program : Items Stack.Block)
  | generated (program : Items Tac.Block)

def Program.text (labels : Labels) : Program → String
  | parsed script => script.text
  | split script => script.text
  | resolved script => script.text
  | items program => program.text Stmt.lines
  | plain program => program.text Stmt.lines
  | lowered program => program.text (Nested.lines labels (Lowered.line labels))
  | straight program => program.text (Nested.lines labels (straightLine labels))
  | grouped program => program.text (Nested.lines labels (Stack.Block.line labels))
  | linked program => program.text (Stack.blockLines labels)
  | generated program => program.text (Tac.blockLines labels)

end Wabbit
