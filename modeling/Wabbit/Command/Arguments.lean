/-!
The command line. Options may stand on either side of the input file; two dashes alone end them.
The value of an option stands in the next argument or, behind a sign `=` or directly behind a
letter, in the same one. An argument is looked at when the next one is known not to belong to it.
-/

namespace Wabbit.Command

/-- What to do with the input file. -/
inductive Mode where
  | compile
  | parse
  | stages
  deriving DecidableEq, Repr

def Mode.ofName? : String → Option Mode
  | "compile" => some compile
  | "parse" => some parse
  | "stages" => some stages
  | _ => none

/-- Why a command line is not carried out. -/
inductive UsageError where
  /-- A value is missing, empty or not one of those allowed. -/
  | invalidValue
  /-- An option that there is none of, or a second input file. -/
  | unknownArgument
  /-- There is no input file. -/
  | missingArgument
  /-- An option is given twice. -/
  | conflict
  /-- A value is given to an option that takes none. -/
  | tooManyValues
  /-- The user asks for help. -/
  | helpWanted
  /-- The user asks for the version. -/
  | versionWanted
  deriving DecidableEq, Repr

/-- A command line that can be carried out. -/
structure Invocation where
  input : String
  output : Option String := none
  mode : Mode := .compile
  reportUndeclared : Bool := false
  deriving DecidableEq, Repr

/-- What a value is for. -/
inductive Parameter where
  | input
  | output
  | mode
  deriving DecidableEq, Repr

inductive Switch where
  | output
  | mode
  | reportUndeclared
  | help
  | version
  deriving DecidableEq, Repr

def Switch.ofName? : String → Option Switch
  | "output-file" => some output
  | "mode" => some mode
  | "report-undeclared" => some reportUndeclared
  | "help" => some help
  | "version" => some version
  | _ => none

def Switch.ofLetter? : Char → Option Switch
  | 'o' => some output
  | 'm' => some mode
  | 'h' => some help
  | 'V' => some version
  | _ => none

/-- How far the command line is read. -/
structure Progress where
  input : Option String := none
  output : Option String := none
  mode : Option Mode := none
  reportUndeclared : Bool := false
  /-- What the latest argument gives a value to, and that value if it is known. -/
  pending : Option (Parameter × Option String) := none
  /-- Whether options have ended. -/
  onlyInputs : Bool := false

namespace Progress

/-- Stores a value that is given for the first time. -/
def store (progress : Progress) (parameter : Parameter) (value : String) :
    Except UsageError Progress :=
  match parameter with
  | .input =>
    if value.isEmpty then .error .invalidValue else .ok { progress with input := some value }
  | .output =>
    if progress.output.isSome then .error .conflict
    else if value.isEmpty then .error .invalidValue
    else .ok { progress with output := some value }
  | .mode =>
    if progress.mode.isSome then .error .conflict
    else match Mode.ofName? value with
      | none => .error .invalidValue
      | some mode => .ok { progress with mode := some mode }

/-- Settles the latest argument, once it is complete. -/
def settle (progress : Progress) : Except UsageError Progress :=
  match progress.pending with
  | none => .ok progress
  | some (_, none) => .error .invalidValue
  | some (parameter, some value) => { progress with pending := none }.store parameter value

/-- Begins an option that takes a value, which may be known already. -/
def begin (progress : Progress) (parameter : Parameter) (value : Option String) :
    Except UsageError Progress := do
  let progress ← progress.settle
  match value with
  | none => return { progress with pending := some (parameter, none) }
  | some value => progress.store parameter value

/-- Reads an option and the value that stands in the same argument. -/
def switch (progress : Progress) (option : Switch) (value : Option String) :
    Except UsageError Progress :=
  match option, value with
  | .output, value => progress.begin .output value
  | .mode, value => progress.begin .mode value
  | _, some _ => .error .tooManyValues
  | .reportUndeclared, none => do
    let progress ← progress.settle
    if progress.reportUndeclared then .error .conflict
    else return { progress with reportUndeclared := true }
  | .help, none => do
    let _ ← progress.settle
    .error .helpWanted
  | .version, none => do
    let _ ← progress.settle
    .error .versionWanted

/-- Reads an argument behind two dashes: a long name, and a value behind `=`. -/
def long (progress : Progress) (argument : List Char) : Except UsageError Progress :=
  let name := argument.takeWhile (· ≠ '=')
  let value := match argument.dropWhile (· ≠ '=') with
    | [] => none
    | _ :: value => some (String.ofList value)
  match Switch.ofName? (String.ofList name) with
  | none => .error .unknownArgument
  | some option => progress.switch option value

/-- Reads an argument behind one dash: a letter and, for an option that takes one, a value. -/
def short (progress : Progress) (letter : Char) (rest : List Char) : Except UsageError Progress :=
  let value := match rest with
    | [] => none
    | '=' :: value => some (String.ofList value)
    | value => some (String.ofList value)
  match Switch.ofLetter? letter with
  | none => .error .unknownArgument
  | some .output => progress.switch .output value
  | some .mode => progress.switch .mode value
  | some option => progress.switch option none

/-- Reads an argument that is not an option: the value of the option before it, or the input
file. -/
def plain (progress : Progress) (argument : String) : Except UsageError Progress :=
  match progress.pending, progress.onlyInputs with
  | some (parameter, none), false =>
    .ok { progress with pending := some (parameter, some argument) }
  | pending, _ =>
    if progress.input.isSome ∨ (pending.map Prod.fst) = some .input then .error .unknownArgument
    else do
      let progress ← progress.settle
      return { progress with pending := some (.input, some argument) }

def step (progress : Progress) (argument : String) : Except UsageError Progress :=
  if progress.onlyInputs then progress.plain argument
  else
    match argument.toList with
    | ['-', '-'] => .ok { progress with onlyInputs := true }
    | '-' :: '-' :: rest => progress.long rest
    | '-' :: letter :: rest => progress.short letter rest
    | _ => progress.plain argument

end Progress

def Invocation.ofArguments (arguments : List String) : Except UsageError Invocation := do
  let progress ← arguments.foldlM Progress.step {}
  let progress ← progress.settle
  match progress.input with
  | none => .error .missingArgument
  | some input =>
    return {
      input
      output := progress.output
      mode := progress.mode.getD .compile
      reportUndeclared := progress.reportUndeclared }

end Wabbit.Command
