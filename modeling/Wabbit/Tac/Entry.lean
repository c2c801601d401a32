import Wabbit.Tac.Basic

/-!
Parameters as variables. Arguments arrive in registers, which cannot be assigned again, so a
function with parameters starts with a block that copies them to the stack.
-/

namespace Wabbit

open Tac

namespace Tac

/-- The instructions that copy an argument to the stack. -/
def spill (parameter : Ast.Symbol) : List Instr :=
  [.alloca parameter.text parameter.kind,
    .store parameter.kind (.register (.argument parameter.text)) (.slot parameter.text)]

/-- The parameter under the name of the register that its argument arrives in. -/
def incoming (parameter : Ast.Symbol) : Ast.Symbol :=
  { parameter with text := (Register.argument parameter.text).name }

end Tac

/-- The function with a block that copies its arguments and goes on to the first block. -/
def FunDef.withEntryBlock (f : FunDef Block) : StateM Labels (FunDef Block) :=
  match f.parameters, f.body with
  | [], _ => pure f
  | _, [] => pure f
  | parameters, first :: _ => do
    let label ← modifyGet fun labels => labels.make Label.entryName
    let instrs := parameters.flatMap spill ++ [.jump first.label]
    pure ⟨f.name, parameters.map incoming, ⟨label, instrs⟩ :: f.body⟩

/-- The program with such a block in every function that has parameters. -/
def Items.withEntryBlocks (program : Items Block) : StateM Labels (Items Block) :=
  program.mapFunctionsM FunDef.withEntryBlock

end Wabbit
