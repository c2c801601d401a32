import Wabbit.Token.Lexer
import Wabbit.Source.Grammar

/-!
Reading source text. A text is accepted only if it was read without recording any fault; otherwise
all faults are told, those of the tokens first.
-/

namespace Wabbit.Source

open Parsing

/-- Why a source text cannot be read. -/
inductive ReadError where
  /-- An opened bracket is not closed before what stands at `before`. -/
  | unclosedDelimiter (delimiter before : String) (span : Span)
  /-- Something else stands where one of the expected texts should. -/
  | unexpectedInput (found : String) (expected : List String) (span : Span)
  | refused (cause : Refusal) (span : Span)
  deriving DecidableEq, Repr

def refusalMessage : Refusal → String
  | .integerTooLarge =>
    "Invalid integer literal: number too large to fit in target type"
  | .bareVariable name => s!"Variable `{name}` needs a type or an initial value"

def ReadError.diagnostic : ReadError → Diagnostic
  | unclosedDelimiter delimiter before span =>
    ⟨s!"Found an unclosed delimiter: {delimiter}", some s!"Must be closed before: {before}",
      [("unclosed delimiter", span)]⟩
  | unexpectedInput found expected span =>
    let help := if expected.isEmpty then none
      else some ("Expected one of: " ++ ", ".intercalate expected)
    ⟨s!"Encountered unexpected input: {found}", help, [("here", span)]⟩
  | refused cause span => ⟨refusalMessage cause, none, [("here", span)]⟩

/-- The text of an item of the input, or of its end. -/
def describe {σ : Type} (text : σ → String) (x : Option σ) : String := x.elim "end of file" text

/-- The error that a fault stands for. What was expected is told in alphabetical order. -/
def ReadError.ofFault {σ : Type} (text : σ → String) (fault : Fault σ) : ReadError :=
  match fault.reason with
  | .unexpected =>
    let expected := (fault.expected.map (describe text)).mergeSort (fun a b => a ≤ b)
    .unexpectedInput (describe text fault.found) expected fault.span
  | .unclosed opened delimiter =>
    .unclosedDelimiter (text delimiter) (describe text fault.found) opened
  | .refused cause => .refused cause fault.span

/-- All faults that a parser tells of. -/
def faults {σ α : Type} : Reply σ α → List (Fault σ)
  | .done s => s.recorded
  | .failed recorded fault => recorded ++ [fault]

/-- What a parser has read, also if it had to record faults. -/
def outcome? {σ α : Type} : Reply σ α → Option α
  | .done s => some s.value
  | .failed _ _ => none

def endOf (source : String) : Span := .marker source.utf8ByteSize

def lex (source : String) : Reply Char (List (Token × Span)) :=
  Token.Lexer.tokens (.ofList (Token.located 0 source.toList) (endOf source))

def parse (source : String) (tokens : List (Token × Span)) : Reply Token (List Stmt) :=
  Grammar.program tokens.length (.ofList tokens (endOf source))

/-- Reads a source text. -/
def read (source : String) : Except (List ReadError) (List Stmt) :=
  let lexed := lex source
  let lexErrors := (faults lexed).map (.ofFault Char.toString)
  match outcome? lexed with
  | none => .error lexErrors
  | some tokens =>
    let parsed := parse source tokens
    let errors := lexErrors ++ (faults parsed).map (.ofFault Token.text)
    match outcome? parsed, errors with
    | some statements, [] => .ok statements
    | _, errors => .error errors

end Wabbit.Source
