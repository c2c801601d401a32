import Wabbit.Source
import Wabbit.Ast

/-!
Giving every name and expression its kind. All names share one table that is filled in the order of
the text: a declaration sets the kind of its name for everything behind it, in whatever block or
function.
-/

namespace Wabbit

open Ast

/-- Why a program is not well kinded. -/
inductive TypeError where
  | undeclared (name : String) (span : Span)
  | operands (mismatch : Mismatch) (span : Span)
  | notCondition (span : Span)
  | returned (expected found : Kind) (span : Span)
  | assigned (name : String) (expected found : Kind) (span : Span)
  | argumentCount (function : String) (expected found : Nat) (span : Span)
  | argument (function : String) (expected found : Kind) (span : Span)
  deriving DecidableEq, Repr

def Ast.Mismatch.message (m : Mismatch) : String :=
  "Invalid binary operator typing: " ++ m.left.name ++ " != " ++ m.right.name ++ " for `"
    ++ m.op.sign ++ "`"

def TypeError.diagnostic : TypeError → Diagnostic
  | undeclared name span =>
    ⟨s!"Use of undeclared name `{name}`",
      some s!"Declare it with `var {name} = ...;` before using it", [("not declared", span)]⟩
  | operands mismatch span => ⟨mismatch.message, none, [("operands of different types", span)]⟩
  | notCondition span =>
    ⟨"The condition must be a comparison",
      some "Compare the value explicitly, e.g. `x != 0`", [("not a comparison", span)]⟩
  | returned expected found span =>
    ⟨s!"Function returns {expected.name}, but this returns {found.name}", none,
      [("returned here", span)]⟩
  | assigned name expected found span =>
    ⟨s!"Cannot store a {found.name} in `{name}`, which is a {expected.name}", none,
      [("value of the wrong type", span)]⟩
  | argumentCount function expected found span =>
    ⟨s!"`{function}` takes {expected} arguments, but {found} were given", none,
      [("in this call", span)]⟩
  | argument function expected found span =>
    ⟨s!"Argument of `{function}` should be a {expected.name}, but is a {found.name}", none,
      [("this argument", span)]⟩

namespace Typing

/-- What is known at a place of the text. Of several entries for a name the first one counts. -/
structure Context where
  /-- The kinds of variables and the kinds of functions' results. -/
  kinds : List (String × Kind) := []
  /-- The kinds of functions' parameters. -/
  signatures : List (String × List Kind) := []
  /-- The kinds that the enclosing function returns so far, the first one first. -/
  returns : List (Kind × Span) := []

namespace Context

def lookup (context : Context) (name : String) (span : Span) : Except TypeError Name :=
  match context.kinds.lookup name with
  | some kind => .ok ⟨name, kind⟩
  | none => .error (.undeclared name span)

def declare (context : Context) (name : Name) : Context :=
  { context with kinds := (name.text, name.kind) :: context.kinds }

end Context

/-- All returned kinds are the expected one; the first that is not is told. -/
def checkReturns (returns : List (Kind × Span)) (expected : Kind) : Except TypeError Unit :=
  match returns.find? (fun returned => returned.1 ≠ expected) with
  | some (found, span) => .error (.returned expected found span)
  | none => .ok ()

/-- Both sides of an operator, joined if their kinds allow it. -/
def checkBinary (op : Operator) (left right : Expr Name True) (span : Span) :
    Except TypeError (Expr Name True) :=
  match op with
  | .arithmetic op => (Expr.arithmetic op left right).mapError (.operands · span)
  | .compare op => .ok (.compare op left right)

mutual

def checkExpr (context : Context) : Source.Expr → Except TypeError (Expr Name True)
  | .int value _ => .ok (.int value)
  | .float value _ => .ok (.float value)
  | .var name span => return .name (← context.lookup name span)
  | .neg inner _ => return .neg trivial (← checkExpr context inner)
  | .binary op left right span => do
    let left ← checkExpr context left
    let right ← checkExpr context right
    checkBinary op left right span
  | .call function arguments span => do
    let some parameters := context.signatures.lookup function
      | .error (.undeclared function span)
    if parameters.length ≠ arguments.length then
      .error (.argumentCount function parameters.length arguments.length span)
    else
      let arguments ← checkArguments context function arguments parameters
      return .call (← context.lookup function span) arguments

/-- Gives the arguments of a function their kinds, which are those of its parameters. -/
def checkArguments (context : Context) (function : String) :
    List Source.Expr → List Kind → Except TypeError (List (Expr Name True))
  | e :: rest, expected :: kinds => do
    let typed ← checkExpr context e
    if typed.kind ≠ expected then .error (.argument function expected typed.kind e.span)
    else return typed :: (← checkArguments context function rest kinds)
  | _, _ => .ok []

end

/-- Gives a condition its kinds; it has to be a comparison. -/
def checkCondition (context : Context) : Source.Expr → Except TypeError (Condition Name True)
  | .binary (.compare op) left right _ =>
    return ⟨op, ← checkExpr context left, ← checkExpr context right⟩
  | e => .error (.notCondition e.span)

def Context.enter (context : Context) (name : String) (parameters : List (String × Kind))
    (result : Option Kind) : Context :=
  let declared := match result with
    | some kind => context.declare ⟨name, kind⟩
    | none => context
  let inner := parameters.foldl (fun context p => context.declare ⟨p.1, p.2⟩) declared
  { inner with
    signatures := (name, parameters.map Prod.snd) :: context.signatures
    returns := [] }

/-- The kind of a function's result: as declared, or else that of its last return statement. -/
def resultKind (declared : Option Kind) (returns : List (Kind × Span)) : Kind :=
  declared.getD ((returns.getLast?.map Prod.fst).getD .integer)

mutual

/-- Gives a statement its kinds, and the context behind it. -/
def checkStmt (context : Context) : Source.Stmt → Except TypeError (Stmt Name True True × Context)
  | .declare ident kind _ =>
    let name : Name := ⟨ident.name, kind⟩
    return (.declare name, context.declare name)
  | .define ident kind value span => do
    let value ← checkExpr context value
    let name : Name := ⟨ident.name, value.kind⟩
    match kind.filter (· ≠ value.kind) with
    | some expected => .error (.assigned ident.name expected value.kind span)
    | none => return (.define trivial name value, context.declare name)
  | .assign ident value _ => do
    let typed ← checkExpr context value
    match context.kinds.lookup ident.name with
    | none =>
      let name : Name := ⟨ident.name, typed.kind⟩
      return (.assign name typed, context.declare name)
    | some expected =>
      if expected ≠ typed.kind then
        .error (.assigned ident.name expected typed.kind value.span)
      else return (.assign ⟨ident.name, expected⟩ typed, context)
  | .print value _ => return (.print (← checkExpr context value), context)
  | .ifElse condition ifTrue ifFalse _ => do
    let condition ← checkCondition context condition
    let (ifTrue, context) ← checkBlock context ifTrue
    let (ifFalse, context) ← checkBlock context ifFalse
    return (.ifElse condition ifTrue ifFalse, context)
  | .loop condition body _ => do
    let condition ← checkCondition context condition
    let (body, context) ← checkBlock context body
    return (.loop condition body, context)
  | .function ident parameters result body _ => do
    let (body, inner) ← checkBlock (context.enter ident.name parameters result) body
    let name : Name := ⟨ident.name, resultKind result inner.returns⟩
    checkReturns inner.returns name.kind
    return (.function name (parameters.map fun p => ⟨p.1, p.2⟩) body,
      { inner.declare name with returns := context.returns })
  | .ret value _ => do
    let typed ← checkExpr context value
    return (.ret typed, { context with returns := context.returns ++ [(typed.kind, value.span)] })
  | .eval value _ => return (.eval (← checkExpr context value), context)

def checkBlock (context : Context) :
    List Source.Stmt → Except TypeError (List (Stmt Name True True) × Context)
  | [] => .ok ([], context)
  | s :: rest => do
    let (s, context) ← checkStmt context s
    let (rest, context) ← checkBlock context rest
    return (s :: rest, context)

end

/-- Gives a whole program its kinds. Loose statements end up in a function that returns an
integer. -/
def check (program : List Source.Stmt) : Except TypeError Parsed := do
  let (statements, context) ← checkBlock {} program
  checkReturns context.returns .integer
  return statements

end Typing

end Wabbit
