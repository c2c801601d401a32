import Wabbit.Ast.Printer

/-!
Programs whose top level holds nothing but global variables and functions. What the bodies of the
functions are made of changes from step to step, the functions around them do not.
-/

namespace Wabbit

open Ast (Symbol Named)

/-- A function. It returns the kind of its own name. -/
structure FunDef (β : Type) where
  name : Symbol
  parameters : List Symbol
  body : List β

/-- A global variable or a function. -/
inductive Item (β : Type) where
  | global (symbol : Symbol)
  | function (f : FunDef β)

abbrev Items (β : Type) := List (Item β)

namespace FunDef

variable {β γ : Type}

def withBody (f : FunDef β) (body : List γ) : FunDef γ := ⟨f.name, f.parameters, body⟩

/-- The listing of a function whose body has the given lines. -/
def text (lines : Nat → List β → List String) (f : FunDef β) : String :=
  Listing.function 0 f.name.text (f.parameters.map fun p => (p.text, p.kind.name)) f.name.kind.name
    (lines 1 f.body)

end FunDef

namespace Items

variable {β γ ε : Type}

def mapFunctions (f : FunDef β → FunDef γ) : Items β → Items γ :=
  List.map fun
    | .global symbol => .global symbol
    | .function g => .function (f g)

/-- Changes every function, in order, with effects. -/
def mapFunctionsM {m : Type → Type} [Monad m] (f : FunDef β → m (FunDef γ)) : Items β → m (Items γ)
  | [] => pure []
  | .global symbol :: rest => do
    let rest ← mapFunctionsM f rest
    pure (.global symbol :: rest)
  | .function g :: rest => do
    let g ← f g
    let rest ← mapFunctionsM f rest
    pure (.function g :: rest)

def functions (program : Items β) : List (FunDef β) :=
  program.filterMap fun
    | .global _ => none
    | .function f => some f

end Items

/-- The listing of a program whose function bodies have the given lines. -/
def Items.text {β : Type} (lines : Nat → List β → List String) (program : Items β) : String :=
  Listing.program (program.map fun
    | .global symbol => Ast.Named.declaration symbol
    | .function f => f.text lines)

end Wabbit
