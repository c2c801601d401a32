import Wabbit.Tac.Basic

/-!
What running code works on, for the stack machine and for three address code alike. The store, the
arithmetic on floats and what calls do are parameters, so that two pieces of code are compared in
every world there may be. Integers have 32 bits and wrap around.
-/

namespace Wabbit

open Tac (Address)

def Kind.Carrier : Kind → Type
  | .integer => Int32
  | .float => Binary64

structure Number where
  kind : Kind
  value : kind.Carrier

/-- What can be observed of running code, the end of it apart. -/
inductive Effect where
  | load (address : Address) (value : Number)
  | store (address : Address) (value : Number)
  | print (value : Number)
  /-- A call with its arguments, the first one first, and the kind of its result. -/
  | call (function : String) (arguments : List Number) (result : Kind)

/-- What running code depends on. -/
structure World where
  /-- The values of all global variables and of the variables of the function. -/
  Store : Type
  read : Store → Address → (kind : Kind) → kind.Carrier
  write : Store → Address → (kind : Kind) → kind.Carrier → Store
  /-- What making room for a variable does. -/
  reserve : Store → String → Kind → Store
  arithmetic : Arithmetic → Binary64 → Binary64 → Binary64
  comparison : Comparison → Binary64 → Binary64 → Bool
  /-- The integer that a float is cut off to. -/
  truncate : Binary64 → Int32
  /-- The result of a call and the store behind it; none if the call does not come back. -/
  call : Store → String → List Number → (kind : Kind) → Option (kind.Carrier × Store)

/-- The result on 32 bit integers. A quotient by zero, or one that does not fit, is undefined. -/
def Arithmetic.onInt32 (op : Arithmetic) (left right : Int32) : Option Int32 :=
  match op with
  | add => some (left + right)
  | sub => some (left - right)
  | mul => some (left * right)
  | div => if right = 0 ∨ (left = Int32.minValue ∧ right = -1) then none else some (left / right)

/-- Whether a comparison holds of 32 bit integers with their signs. -/
def Comparison.onInt32 (op : Comparison) (left right : Int32) : Bool :=
  match op with
  | less => left < right
  | lessEq => left ≤ right
  | greater => right < left
  | greaterEq => right ≤ left
  | equal => left = right
  | notEqual => left ≠ right

/-- A value on the way from one instruction to another. -/
inductive Entry where
  | number (n : Number)
  /-- The outcome of a comparison that was made in the given kind. -/
  | flag (holds : Bool) (kind : Kind)

def Entry.kind : Entry → Kind
  | number n => n.kind
  | flag _ kind => kind

namespace World

/-- The values of a kind that the outcomes of a comparison count as. -/
def ofFlag (holds : Bool) : (kind : Kind) → kind.Carrier
  | .integer => (if holds then 1 else 0 : Int32)
  | .float => Binary64.ofInt (if holds then 1 else 0)

/-- A number as a value of another kind. -/
def ofNumber (w : World) : Number → (kind : Kind) → kind.Carrier
  | ⟨.integer, n⟩, .integer => n
  | ⟨.integer, n⟩, .float => Binary64.ofInt (Int32.toInt n)
  | ⟨.float, x⟩, .integer => w.truncate x
  | ⟨.float, x⟩, .float => x

/-- An entry as a value of the kind in which it is used. -/
def convert (w : World) : Entry → (kind : Kind) → kind.Carrier
  | .number n, kind => w.ofNumber n kind
  | .flag holds _, kind => ofFlag holds kind

/-- An entry as an argument, which is used in its own kind. -/
def argument (w : World) (e : Entry) : Number := ⟨e.kind, w.convert e e.kind⟩

def zero : (kind : Kind) → kind.Carrier
  | .integer => (0 : Int32)
  | .float => Binary64.zero

/-- Whether a comparison holds of two values of a kind. -/
def holds (w : World) (op : Comparison) : (kind : Kind) → kind.Carrier → kind.Carrier → Bool
  | .integer, left, right => op.onInt32 left right
  | .float, left, right => w.comparison op left right

/-- What an arithmetic operator makes of two values of a kind, if that is defined. -/
def compute (w : World) (op : Arithmetic) :
    (kind : Kind) → kind.Carrier → kind.Carrier → Option kind.Carrier
  | .integer, left, right => op.onInt32 left right
  | .float, left, right => some (w.arithmetic op left right)

/-- What an operator makes of two values of a kind, if that is defined. -/
def operate (w : World) (op : Operator) (kind : Kind) (left right : kind.Carrier) : Option Entry :=
  match op with
  | .arithmetic op => (w.compute op kind left right).map fun value => .number ⟨kind, value⟩
  | .compare op => some (.flag (w.holds op kind left right) kind)

/-- Whether an entry counts as true: a number does unless it is zero. -/
def truth (w : World) : Entry → Bool
  | .number n => w.holds .notEqual n.kind n.value (zero n.kind)
  | .flag holds _ => holds

/-- The store, and all that has happened so far. -/
structure State (w : World) where
  store : w.Store
  trace : List Effect := []

namespace State

variable {w : World}

def log (s : w.State) (event : Effect) : w.State := { s with trace := s.trace ++ [event] }

def load (s : w.State) (address : Address) (kind : Kind) : kind.Carrier × w.State :=
  let value := w.read s.store address kind
  (value, s.log (.load address ⟨kind, value⟩))

def save (s : w.State) (address : Address) (value : Number) : w.State :=
  { s.log (.store address value) with store := w.write s.store address value.kind value.value }

def reserve (s : w.State) (name : String) (kind : Kind) : w.State :=
  { s with store := w.reserve s.store name kind }

def call (s : w.State) (function : String) (arguments : List Number) (kind : Kind) :
    Option kind.Carrier × w.State :=
  let called := s.log (.call function arguments kind)
  match w.call s.store function arguments kind with
  | some (value, store) => (some value, { called with store })
  | none => (none, called)

end State

end World

/-- How a run of instructions ends. -/
inductive Exit where
  /-- Behind the last instruction. -/
  | next
  | jump (target : Label)
  /-- With the decision of a branch, and where it leads. -/
  | branch (holds : Bool) (target : Label)
  | returned (value : Number)
  /-- At a quotient that is not defined or a call that does not come back. -/
  | undefined
  /-- At an operand that is missing or has the wrong type. -/
  | stuck

/-- Where control goes from here, if it goes to another block. -/
def Exit.target? : Exit → Option Label
  | jump target => some target
  | branch _ target => some target
  | _ => none

end Wabbit
