import Wabbit.Compiler
import Wabbit.Path
import Wabbit.Workbench
import Wabbit.Command.Arguments
import Wabbit.Command.Files

/-!
Carrying out a command line.
-/

namespace Wabbit.Command

/-- A message to the user, and further messages that explain it. -/
structure Report where
  diagnostic : Diagnostic
  related : List Diagnostic := []
  deriving DecidableEq, Repr

structure Outcome where
  /-- What was printed, also before a failure. -/
  printed : String := ""
  warnings : List Warning := []
  /-- The path and the content of the file that was written. -/
  written : Option (String × String) := none
  failure : Option Report := none

/-- What a command needs to know of the files around it. -/
structure Surroundings where
  /-- The content of the input file, if there is such a file. -/
  source : Option String
  /-- Whether there is anything at a path already. -/
  occupied : String → Bool
  /-- What keeps a file from being written to a path, as far as that is known. -/
  obstacle? : String → Option Obstacle

def load (path : String) (source : Option String) : Except Report Ast.Parsed :=
  match source with
  | none => .error ⟨{ message := "No proper input file: " ++ Text.quoted path }, []⟩
  | some source =>
    (frontEnd source).mapError fun rejection =>
      ⟨{ message := "Could not compile " ++ path }, rejection.diagnostics⟩

/-- The path of the output file: as given, or else next to the input file. -/
def Invocation.target (invocation : Invocation) : String :=
  invocation.output.getD (Path.withExtension invocation.input "ll")

/-- The listings of all steps that were finished. -/
def stageListings (events : List Event) : String :=
  String.join ((events.filterMap Event.finished?).map fun (stage, listing) =>
    "=== " ++ stage.name ++ " ===\n" ++ listing ++ "\n")

def Invocation.run (invocation : Invocation) (surroundings : Surroundings) : Outcome :=
  match load invocation.input surroundings.source with
  | .error report => { failure := some report }
  | .ok script =>
    let build := compile { reportUndeclared := invocation.reportUndeclared } script
    let warnings := build.log.filterMap Event.warning?
    let failure : Option Report := match build.result with
      | .ok _ => none
      | .error e => some { diagnostic := e.diagnostic }
    match invocation.mode, build.result with
    | .parse, _ => { printed := script.drawn }
    | .stages, _ => { printed := stageListings build.log, warnings, failure }
    | .compile, .error _ => { warnings, failure }
    | .compile, .ok compiled =>
      let target := invocation.target
      let replaced := if surroundings.occupied target then [Warning.overwritten target] else []
      let warnings := warnings ++ replaced
      match surroundings.obstacle? target with
      | some obstacle => { warnings, failure := some { diagnostic.message := obstacle.message } }
      | none => { warnings, written := some (target, compiled.assembly) }

def Files.surroundings (files : Files) (input : String) : Surroundings :=
  ⟨files.read? input, files.occupied, files.obstacle?⟩

/-- Carries out a command line in a directory tree. -/
def Invocation.runIn (invocation : Invocation) (files : Files) : Outcome × Files :=
  let outcome := invocation.run (files.surroundings invocation.input)
  (outcome, outcome.written.elim files fun (path, content) => files.write path content)

end Wabbit.Command
