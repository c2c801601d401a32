import Wabbit.Error
import Wabbit.Tac.Basic

/-!
From stack machine code to three address code. The stack is only simulated: it tells which constant
or register holds each value that is computed and not used yet. Every block starts with an empty
stack. Registers are numbered through the whole program.
-/

namespace Wabbit.Tac

/-- An entry of the simulated stack. -/
inductive Value where
  | number (operand : Operand) (kind : Kind)
  /-- The outcome of a comparison that was made in the given kind. -/
  | flag (register : Register) (kind : Kind)
  deriving DecidableEq, Repr

def Value.kind : Value → Kind
  | number _ kind => kind
  | flag _ kind => kind

/-- The number of the next register and the simulated stack, its top first. -/
structure Machine where
  next : Nat := 0
  stack : List Value := []
  deriving DecidableEq, Repr

/-- A part of what is generated for an instruction: it changes the machine and gives instructions.
There is none if the stack has too few entries. -/
def Step (α : Type) := Machine → Option (α × List Instr × Machine)

namespace Step

instance : Monad Step where
  pure a := fun machine => some (a, [], machine)
  bind x f := fun machine =>
    (x machine).bind fun (a, code, machine) =>
      (f a machine).map fun (b, more, machine) => (b, code ++ more, machine)

def emit (instr : Instr) : Step Unit := fun machine => some ((), [instr], machine)

def fresh : Step Register := fun machine =>
  some (.numbered machine.next, [], { machine with next := machine.next + 1 })

def push (value : Value) : Step Unit := fun machine =>
  some ((), [], { machine with stack := value :: machine.stack })

def pop : Step Value := fun machine =>
  match machine.stack with
  | [] => none
  | value :: rest => some (value, [], { machine with stack := rest })

/-- Takes several values from the stack, the one that was put there first in front. -/
def popMany (count : Nat) : Step (List Value) := fun machine =>
  if machine.stack.length < count then none
  else
    let rest := machine.stack.drop count
    some ((machine.stack.take count).reverse, [], { machine with stack := rest })

/-- Converts a value in a register of its own. -/
def convert (conversion : Conversion) (value : Operand) : Step Operand := do
  let result ← fresh
  emit (.convert result conversion value)
  pure (.register result)

/-- Makes a value usable where an operand of the given kind is wanted. Constants are converted right
here. -/
def materialize : Value → Kind → Step Operand
  | .number (.int value) _, .float => pure (.float (.ofInt value.toInt))
  | .number (.float value) _, .integer => pure (.int value.toInt64)
  | .number operand .integer, .integer => pure operand
  | .number operand .float, .float => pure operand
  | .number operand .integer, .float => convert .intToFloat operand
  | .number operand .float, .integer => convert .floatToInt operand
  | .flag flag _, .integer => convert .flagToInt (.register flag)
  | .flag flag _, .float => convert .flagToFloat (.register flag)

/-- Takes a value from the stack as an operand of the given kind. -/
def popAs (kind : Kind) : Step Operand := do
  let value ← pop
  materialize value kind

/-- Makes values usable as arguments, each in its own kind. -/
def arguments : List Value → Step (List (Kind × Operand))
  | [] => pure []
  | value :: rest => do
    let operand ← materialize value value.kind
    let rest ← arguments rest
    pure ((value.kind, operand) :: rest)

/-- Applies an operator to the two topmost values. The right operand, which is on top, is converted
first. -/
def binary (op : Operator) (kind : Kind) : Step Register := do
  let right ← popAs kind
  let left ← popAs kind
  let result ← fresh
  emit (.binary result op kind left right)
  pure result

/-- Makes a value usable as a condition: a number is compared with zero. -/
def condition : Value → Step Operand
  | .flag flag _ => pure (.register flag)
  | .number operand kind => do
    let result ← fresh
    emit (.binary result (.compare .notEqual) kind operand (.zero kind))
    pure (.register result)

end Step

open Step in
def generateInstr : Stack.Instr → Step Unit
  | .push (.int value) => push (.number (.int value) .integer)
  | .push (.float value) => push (.number (.float value) .float)
  | .load symbol => do
    let result ← fresh
    emit (.load result symbol.kind (.ofSymbol symbol))
    push (.number (.register result) symbol.kind)
  | .store symbol => do
    let value ← popAs symbol.kind
    emit (.store symbol.kind value (.ofSymbol symbol))
  | .arith op kind => do
    let result ← binary (.arithmetic op) kind
    push (.number (.register result) kind)
  | .compare op kind => do
    let result ← binary (.compare op) kind
    push (.flag result kind)
  | .call function count kind => do
    let values ← popMany count
    let operands ← arguments values
    let result ← fresh
    emit (.call result function kind operands)
    push (.number (.register result) kind)
  | .print kind => do
    let value ← popAs kind
    emit (.print kind value)
  | .ret kind => do
    let value ← popAs kind
    emit (.ret kind value)
  | .goto label => emit (.jump label)
  | .branch ifTrue ifFalse => do
    let value ← pop
    let operand ← condition value
    emit (.branch operand ifTrue ifFalse)
  | .slot name => emit (.alloca name.text name.kind)

def generateInstrs (machine : Machine) :
    List Stack.Instr → Except CompileError (List Instr × Machine)
  | [] => .ok ([], machine)
  | instr :: rest =>
    match generateInstr instr machine with
    | none => .error (.underflow instr)
    | some ((), code, machine) => do
      let (more, machine) ← generateInstrs machine rest
      return (code ++ more, machine)

/-- What is generated for a block, from the given register on. Values that are left on the stack are
dropped. -/
def generateBlock (block : Stack.Block) : StateT Nat (Except CompileError) Block := do
  let (code, machine) ← generateInstrs { next := ← get } block.instrs
  set machine.next
  return ⟨block.label, code⟩

def generateBlocks : List Stack.Block → StateT Nat (Except CompileError) (List Block)
  | [] => return []
  | block :: rest => do
    let block ← generateBlock block
    let rest ← generateBlocks rest
    return block :: rest

end Wabbit.Tac

namespace Wabbit

def Items.generate (program : Items Stack.Block) : Except CompileError (Items Tac.Block) :=
  (program.mapFunctionsM fun f => do
    let body ← Tac.generateBlocks f.body
    return f.withBody body : StateT Nat (Except CompileError) (Items Tac.Block)).run' 0

end Wabbit
