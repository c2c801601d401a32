import Wabbit.Compiler
import Wabbit.Ast.Drawing

/-!
The steps of the compiler one at a time, in any order in which they fit, and the names by which steps
and operators are called where programs are made by hand.
-/

namespace Wabbit

open Ast

/-- All operators, in the order in which they are usually listed. -/
def Operator.all : List Operator :=
  [.arithmetic .add, .arithmetic .sub, .arithmetic .mul, .arithmetic .div,
    .compare .less, .compare .lessEq, .compare .greater, .compare .greaterEq,
    .compare .equal, .compare .notEqual]

/-- The operator written with the given sign. -/
def Operator.ofSign? (sign : String) : Option Operator :=
  all.find? (fun op => op.sign == sign)

/-- No two operators have the same sign, so each is found by its own. -/
theorem Operator.ofSign?_eq_some_iff {sign : String} {op : Operator} :
    ofSign? sign = some op ↔ op.sign = sign := by
  constructor
  · intro found
    have same := List.find?_some found
    exact beq_iff_eq.mp same
  · rintro rfl
    rcases op with op | op <;> cases op <;> decide

/-- A step that can be applied to a program. -/
inductive Pass where
  | fold
  | tree
  | split
  | resolve
  | unscript
  | returns
  | negate
  | expressions
  | statements
  | blocks
  | link
  | relabel
  | generate
  | entry
  | emit
  deriving DecidableEq, Repr

namespace Pass

def names : List (String × Pass) :=
  [("fold", fold), ("tree", tree), ("split", split), ("resolve", resolve), ("unscript", unscript),
    ("returns", returns), ("negate", negate), ("expressions", expressions),
    ("statements", statements), ("blocks", blocks), ("link", link), ("relabel", relabel),
    ("generate", generate), ("entry", entry), ("emit", emit)]

def ofName? (name : String) : Option Pass := names.lookup name

end Pass

/-- A program and the state of its labels. -/
structure Session where
  program : Program
  labelling : Labelling := {}

/-- Why a pass gives no result. -/
inductive PassError where
  /-- The program does not have the form that the pass works on. -/
  | unfit
  | failed (failure : Failure)

namespace Session

def text (session : Session) : String := session.program.text session.labelling.labels

/-- The session with another program, and its listing. -/
def become (session : Session) (program : Program) : Session × String :=
  let session := { session with program }
  (session, session.text)

def withLabels (session : Session) (labels : Labels) : Session :=
  { session with labelling := { session.labelling with labels } }

def fail (session : Session) (error : CompileError) : PassError :=
  .failed ⟨error, session.labelling.labels⟩

/-- A pass that may meet operands of different kinds. -/
def checked {α : Type} (session : Session) (form : α → Program) (result : Except Mismatch α) :
    Logged Warning PassError (Session × String) :=
  .ofExcept ((result.map fun p => session.become (form p)).mapError
    fun m => session.fail (.mismatch m))

def guarded {α : Type} (session : Session) (form : α → Program) (result : Except CompileError α) :
    Logged Warning PassError (Session × String) :=
  .ofExcept ((result.map fun p => session.become (form p)).mapError session.fail)

/-- Applies a pass. Gives the session behind it, and the text to show. -/
def apply (options : Options) (session : Session) (pass : Pass) :
    Logged Warning PassError (Session × String) :=
  let labels := session.labelling.labels
  match pass, session.program with
  | .fold, .parsed script => session.checked .parsed script.fold
  | .fold, .split script => session.checked .split script.fold
  | .fold, .resolved script => session.checked .resolved script.fold
  | .tree, .parsed script => pure (session, script.drawn)
  | .split, .parsed script => pure (session.become (.split script.split))
  | .resolve, .split script =>
    let resolution := (resolveNames options script).adapt id fun m => session.fail (.mismatch m)
    do
      let script ← resolution
      pure (session.become (.resolved script))
  | .unscript, .resolved script => pure (session.become (.items (Items.ofScript script)))
  | .returns, .items program => pure (session.become (.items program.ensureReturns))
  | .returns, .plain program => pure (session.become (.plain program.ensureReturns))
  | .negate, .items program => session.checked .plain program.eliminateNegation
  | .expressions, .plain program => pure (session.become (.lowered program.lowerExpressions))
  | .statements, .lowered program => session.guarded .straight program.lowerStatements
  | .blocks, .straight program =>
    let (program, labelling) := program.groupBlocks.run session.labelling
    pure ({ session with labelling }.become (.grouped program))
  | .link, .grouped program =>
    match program.link.run session.labelling with
    | .ok (program, labelling) => pure ({ session with labelling }.become (.linked program))
    | .error e => .ofExcept (.error (session.fail e))
  | .relabel, .linked program =>
    pure ((session.withLabels (program.relabel labels)).become (.linked program))
  | .generate, .linked program => session.guarded .generated program.generate
  | .entry, .generated program =>
    let (program, labels) := program.withEntryBlocks.run labels
    pure ((session.withLabels labels).become (.generated program))
  | .emit, .generated program => pure (session, program.assembly labels)
  | _, _ => .ofExcept (.error .unfit)

/-- Applies passes one after the other, up to the first that gives no result. -/
def applyAll (options : Options) :
    Session → List (Option Pass) → List Warning × List (Except PassError String)
  | _, [] => ([], [])
  | _, none :: _ => ([], [.error .unfit])
  | session, some pass :: rest =>
    let step := session.apply options pass
    match step.result with
    | .error e => (step.log, [.error e])
    | .ok (session, text) =>
      let (warnings, results) := applyAll options session rest
      (step.log ++ warnings, .ok text :: results)

end Session

end Wabbit
