import Wabbit.Source.Reader
import Wabbit.Typing
import Wabbit.Items.Negation
import Wabbit.Items.Returns
import Wabbit.Items.Unscript
import Wabbit.Program
import Wabbit.Tac.Entry
import Wabbit.Tac.Generate
import Wabbit.Ast.Folding
import Wabbit.Ast.Scope
import Wabbit.Ast.Splitting

/-!
The compiler. Its front end goes from source text to a typed program, the other steps from there to
three address code, one after the other. The listing of the program after every step is logged.
-/

namespace Wabbit

open Ast

/-! ### From source text to a typed program -/

/-- Why a source text is rejected. -/
inductive Rejection where
  | unreadable (errors : List Source.ReadError)
  | illKinded (error : TypeError)
  deriving DecidableEq, Repr

def Rejection.diagnostics : Rejection → List Diagnostic
  | unreadable errors => errors.map Source.ReadError.diagnostic
  | illKinded error => [error.diagnostic]

/-- Reads a source text and gives it its kinds. -/
def frontEnd (source : String) : Except Rejection Parsed := do
  let statements ← (Source.read source).mapError .unreadable
  (Typing.check statements).mapError .illKinded

/-! ### From there to three address code -/

/-- What the user of the compiler can choose. -/
structure Options where
  /-- Warn of names that are used without a declaration. -/
  reportUndeclared : Bool := false
  deriving DecidableEq, Repr

inductive Stage where
  | folding
  | splitting
  | resolution
  | unwrapping
  | returns
  | negation
  | expressions
  | statements
  | blocks
  | flow
  | generation
  | entryBlocks
  deriving DecidableEq, Repr

def Stage.name : Stage → String
  | folding => "constant folding"
  | splitting => "declaration splitting"
  | resolution => "scope resolution"
  | unwrapping => "script unwrapping"
  | returns => "return normalization"
  | negation => "negation elimination"
  | expressions => "expression lowering"
  | statements => "statement lowering"
  | blocks => "block grouping"
  | flow => "control flow linking"
  | generation => "code generation"
  | entryBlocks => "entry blocks"

/-- What the compiler tells while it runs. -/
inductive Event where
  | warning (w : Warning)
  /-- A step is done and has produced the program with the given listing. -/
  | finished (stage : Stage) (listing : String)
  deriving DecidableEq, Repr

def Event.warning? : Event → Option Warning
  | warning w => some w
  | finished _ _ => none

def Event.finished? : Event → Option (Stage × String)
  | warning _ => none
  | finished stage listing => some (stage, listing)

/-- An error, and the names of the labels that it may speak of. -/
structure Failure where
  error : CompileError
  labels : Labels := {}
  deriving DecidableEq, Repr

def Failure.diagnostic (failure : Failure) : Diagnostic := failure.error.diagnostic failure.labels

/-- A compiled program and the names of its labels. -/
structure Compiled where
  program : Items Tac.Block
  labels : Labels

def Compiled.assembly (compiled : Compiled) : String := compiled.program.assembly compiled.labels

abbrev Build (α : Type) := Logged Event Failure α

namespace Build

/-- Tells that a step is done, where the labels have the given names. -/
def finish (stage : Stage) (labels : Labels) (program : Program) : Build Unit :=
  .write (.finished stage (program.text labels))

/-- A step that may meet operands of different kinds. -/
def checked {α : Type} (result : Except Mismatch α) : Build α :=
  .ofExcept (result.mapError fun m => { error := .mismatch m })

/-- A step that may fail where the labels have the given names. -/
def guarded {α : Type} (labels : Labels) (result : Except CompileError α) : Build α :=
  .ofExcept (result.mapError fun e => ⟨e, labels⟩)

end Build

/-- The resolution of names, with or without its warnings. -/
def resolveNames (options : Options) (script : Split) : Resolution Resolved :=
  let resolution := script.resolve
  if options.reportUndeclared then resolution else ⟨[], resolution.result⟩

open Build in
def compile (options : Options) (script : Parsed) : Build Compiled := do
  let script ← checked script.fold
  finish .folding {} (.parsed script)
  let script := script.split
  finish .splitting {} (.split script)
  let script ← (resolveNames options script).adapt .warning fun m => { error := .mismatch m }
  finish .resolution {} (.resolved script)
  let program := Items.ofScript script
  finish .unwrapping {} (.items program)
  let program := program.ensureReturns
  finish .returns {} (.items program)
  let program ← checked program.eliminateNegation
  finish .negation {} (.plain program)
  let program := program.lowerExpressions
  finish .expressions {} (.lowered program)
  let program ← guarded {} program.lowerStatements
  finish .statements {} (.straight program)
  let (program, labelling) := program.groupBlocks.run {}
  finish .blocks labelling.labels (.grouped program)
  let (program, labelling) ← guarded labelling.labels (program.link.run labelling)
  let labels := program.relabel labelling.labels
  finish .flow labels (.linked program)
  let program ← guarded labels program.generate
  finish .generation labels (.generated program)
  let (program, labels) := program.withEntryBlocks.run labels
  finish .entryBlocks labels (.generated program)
  pure ⟨program, labels⟩

end Wabbit
