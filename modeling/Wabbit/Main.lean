import Wabbit.Command.Run

/-!
The command line program.
-/

namespace Wabbit.Command

def usage : String :=
  "\n".intercalate [
    "Usage: wabbit [OPTIONS] <INPUT_FILE>",
    "",
    "Arguments:",
    "  <INPUT_FILE>  Wabbit source file",
    "",
    "Options:",
    "  -o, --output-file <OUTPUT_FILE>  Where to write the LLVM assembly",
    "  -m, --mode <MODE>                compile (the default), parse or stages",
    "      --report-undeclared          Warn about names that are used without being declared",
    "  -h, --help                       Print help",
    "  -V, --version                    Print version"]

def UsageError.message : UsageError → String
  | invalidValue => "error: a value is missing or not allowed"
  | unknownArgument => "error: unexpected argument found"
  | missingArgument => "error: the input file is missing"
  | conflict => "error: an option is given more than once"
  | tooManyValues => "error: an option takes no value"
  | helpWanted => usage
  | versionWanted => "wabbit 0.1.0"

def diagnosticLines (d : Diagnostic) : List String :=
  d.message :: (d.labels.map fun (text, span) => s!"  at {span.start}..{span.stop}: {text}")
    ++ d.help.toList.map ("  help: " ++ ·)

/-- The content of a file, if it is one. -/
def readSource (path : String) : IO (Option String) := do
  try
    return some (← IO.FS.readFile path)
  catch _ => return none

/-- Carries out a command line in the working directory. -/
def perform (invocation : Invocation) : IO UInt32 := do
  let source ← readSource invocation.input
  let taken ← (IO.FS.readFile invocation.target).toBaseIO
  let outcome := invocation.run ⟨source, fun _ => taken.toOption.isSome, fun _ => none⟩
  IO.print outcome.printed
  for warning in outcome.warnings do
    IO.eprintln ("WARN " ++ warning.message ++ (warning.name?.elim "" (" name=" ++ ·)))
  if let some (path, content) := outcome.written then
    IO.FS.writeFile path content
  match outcome.failure with
  | none => return 0
  | some report =>
    for d in report.diagnostic :: report.related do
      IO.eprintln ("\n".intercalate (diagnosticLines d))
    return 1

end Wabbit.Command

open Wabbit.Command in
/-- Reads the command line and carries it out. -/
def main (arguments : List String) : IO UInt32 := do
  match Invocation.ofArguments arguments with
  | .ok invocation => perform invocation
  | .error .helpWanted => do
    IO.println UsageError.helpWanted.message
    return 0
  | .error .versionWanted => do
    IO.println UsageError.versionWanted.message
    return 0
  | .error e => do
    IO.eprintln e.message
    return 2
