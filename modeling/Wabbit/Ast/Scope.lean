import Wabbit.Label
import Wabbit.Logged
import Wabbit.Warning
import Wabbit.Ast

/-!
What every name refers to. A declaration is visible to the statements behind it, up to the end of
the block it stands in. Declarations and functions at the top level are global, all others are on
the stack of their function.

All variables on the stack of one function have names of their own: a name that is taken, or that a
block of the emitted program may bear, gets a number behind a dot.
-/

namespace Wabbit.Ast

/-- Whether a block of the emitted program may bear the name. -/
def isBlockName (name : String) : Bool :=
  name == Label.entryName ||
    match name.toList with
    | 'L' :: digits => !digits.isEmpty && digits.all Char.isDigit
    | _ => false

/-- The name itself if it is free, or else the first free one of `name.1`, `name.2`, … Of these
there are more than names that are taken. -/
def freshSlot (taken : List String) (name : String) : String :=
  let free (slot : String) : Bool := slot ∉ taken ∧ ¬ isBlockName slot
  if free name then name
  else
    let numbered := (List.range (taken.length + 1)).map fun k => name ++ "." ++ toString (k + 1)
    (numbered.find? free).getD name

/-- Whether a statement stands at the top level or in a block. -/
inductive Depth where
  | topLevel
  | nested
  deriving DecidableEq, Repr

/-- The declarations that are visible at a place, the latest first. -/
structure Scope where
  globals : List Symbol := []
  /-- Names of the source text and the symbols on the stack that they refer to. -/
  locals : List (String × Symbol) := []
  /-- The names taken on the stack of the function so far. -/
  slots : List String := []

namespace Scope

/-- The scope behind a declaration, and the symbol declared. -/
def declare (scope : Scope) (depth : Depth) (name : Name) : Symbol × Scope :=
  match depth with
  | .topLevel =>
    let symbol := Symbol.global name.text name.kind
    (symbol, { scope with globals := symbol :: scope.globals })
  | .nested =>
    let slot := freshSlot scope.slots name.text
    let symbol := Symbol.stack slot name.kind
    (symbol, { scope with
      locals := (name.text, symbol) :: scope.locals
      slots := slot :: scope.slots })

/-- The scope behind the parameters of a function, and their symbols. -/
def declareAll (scope : Scope) : List Name → List Symbol × Scope
  | [] => ([], scope)
  | name :: rest =>
    let (symbol, scope) := scope.declare .nested name
    let (symbols, scope) := scope.declareAll rest
    (symbol :: symbols, scope)

def find? (scope : Scope) (name : String) : Option Symbol :=
  (scope.locals.lookup name).or (scope.globals.find? fun symbol => symbol.text = name)

/-- The scope behind a block: its names on the stack stay taken, its declarations are not
visible. -/
def leave (scope inner : Scope) : Scope := { scope with slots := inner.slots }

end Scope

/-- A step of the resolution. -/
abbrev Resolution (α : Type) := Logged Warning Mismatch α

/-- The symbol that a name refers to. A name without a declaration is taken for a global one. -/
def Scope.lookup (scope : Scope) (name : Name) : Resolution Symbol :=
  match scope.find? name.text with
  | some symbol => pure symbol
  | none => do
    Logged.write (.undeclared name.text)
    pure (.global name.text name.kind)

mutual

/-- Resolves the names of an expression from the left to the right, that of a function before its
arguments. -/
def Expr.resolve {negation : Prop} (scope : Scope) :
    Expr Name negation → Resolution (Expr Symbol negation)
  | .int value => pure (.int value)
  | .float value => pure (.float value)
  | .name n => do
    let symbol ← scope.lookup n
    pure (.name symbol)
  | .arith op left right => do
    let left ← left.resolve scope
    let right ← right.resolve scope
    .ofExcept (Expr.arithmetic op left right)
  | .compare op left right => do
    let left ← left.resolve scope
    let right ← right.resolve scope
    pure (.compare op left right)
  | .call function arguments => do
    let symbol ← scope.lookup function
    let arguments ← Expr.resolveAll scope arguments
    pure (.call symbol arguments)
  | .neg allowed inner => do
    let inner ← inner.resolve scope
    pure (.neg allowed inner)

def Expr.resolveAll {negation : Prop} (scope : Scope) :
    List (Expr Name negation) → Resolution (List (Expr Symbol negation))
  | [] => pure []
  | e :: rest => do
    let e ← e.resolve scope
    let rest ← Expr.resolveAll scope rest
    pure (e :: rest)

end

def Condition.resolve {negation : Prop} (scope : Scope) (condition : Condition Name negation) :
    Resolution (Condition Symbol negation) := do
  let left ← condition.left.resolve scope
  let right ← condition.right.resolve scope
  pure ⟨condition.op, left, right⟩

mutual

/-- Resolves the names of a statement, and gives the scope behind it. The target of an assignment is
looked up before its value. -/
def Stmt.resolve {negation : Prop} (scope : Scope) (depth : Depth) :
    Stmt Name False negation → Resolution (Stmt Symbol False negation × Scope)
  | .declare name =>
    let (symbol, scope) := scope.declare depth name
    pure (.declare symbol, scope)
  | .define allowed _ _ => allowed.elim
  | .assign name value => do
    let symbol ← scope.lookup name
    let value ← value.resolve scope
    pure (.assign symbol value, scope)
  | .print value => do
    let value ← value.resolve scope
    pure (.print value, scope)
  | .ifElse condition ifTrue ifFalse => do
    let condition ← condition.resolve scope
    let (ifTrue, inner) ← Stmt.resolveAll scope .nested ifTrue
    let scope := scope.leave inner
    let (ifFalse, inner) ← Stmt.resolveAll scope .nested ifFalse
    pure (.ifElse condition ifTrue ifFalse, scope.leave inner)
  | .loop condition body => do
    let condition ← condition.resolve scope
    let (body, inner) ← Stmt.resolveAll scope .nested body
    pure (.loop condition body, scope.leave inner)
  | .function name parameters body => do
    let (symbol, scope) := scope.declare depth name
    let (parameters, inner) := { scope with slots := [] }.declareAll parameters
    let (body, _) ← Stmt.resolveAll inner .nested body
    pure (.function symbol parameters body, scope)
  | .ret value => do
    let value ← value.resolve scope
    pure (.ret value, scope)
  | .eval value => do
    let value ← value.resolve scope
    pure (.eval value, scope)

def Stmt.resolveAll {negation : Prop} (scope : Scope) (depth : Depth) :
    List (Stmt Name False negation) → Resolution (List (Stmt Symbol False negation) × Scope)
  | [] => pure ([], scope)
  | s :: rest => do
    let (s, scope) ← s.resolve scope depth
    let (rest, scope) ← Stmt.resolveAll scope depth rest
    pure (s :: rest, scope)

end

def Script.resolve {negation : Prop} (script : Script Name False negation) :
    Resolution (Script Symbol False negation) := do
  let (statements, _) ← Stmt.resolveAll {} .topLevel script
  pure statements

end Wabbit.Ast
