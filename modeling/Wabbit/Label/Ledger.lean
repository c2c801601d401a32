import Wabbit.Label
import Wabbit.Register
import Wabbit.Text.Quoted

/-!
A record of labels and of the supplies they come from. Labels may be entered more than once; all
entries of one label change their name together.
-/

namespace Wabbit

/-- How a label is shown where labels are spoken of. -/
def Labels.describe (labels : Labels) (label : Label) : String :=
  "Label(" ++ Text.quoted (labels.nameOf label) ++ ")"

/-- Labels and supplies in the order of their entries. -/
structure Ledger where
  labels : Labels := {}
  entries : List Label := []
  supplies : List LabelSupply := []
  /-- The number of the next register. -/
  registers : Nat := 0

namespace Ledger

/-- What can be done with a ledger. Entries and supplies are counted from zero. -/
inductive Action where
  /-- Enters a new label. -/
  | make (name : String)
  /-- Enters the label of an entry once more. -/
  | share (entry : Nat)
  | rename (entry : Nat) (name : String)
  /-- Asks whether two entries are the same label. -/
  | same (first second : Nat)
  /-- Asks whether two entries bear the same name. -/
  | equal (first second : Nat)
  | describe (entry : Nat)
  | name (entry : Nat)
  | addSupply (supply : LabelSupply)
  /-- Enters a new label from a supply. -/
  | fresh (supply : Nat)
  /-- Takes the next register. -/
  | register
  deriving DecidableEq, Repr

inductive Answer where
  | nothing
  | truth (value : Bool)
  | text (value : String)
  deriving DecidableEq, Repr

/-- What an action names without being there. -/
inductive Missing where
  | entry
  | supply
  deriving DecidableEq, Repr

def label (ledger : Ledger) (entry : Nat) : Except Missing Label :=
  match ledger.entries[entry]? with
  | some label => .ok label
  | none => .error .entry

def enter (ledger : Ledger) (label : Label) : Ledger :=
  { ledger with entries := ledger.entries ++ [label] }

def step (ledger : Ledger) : Action → Except Missing (Answer × Ledger)
  | .make name =>
    let (label, labels) := ledger.labels.make name
    return (.nothing, { ledger with labels }.enter label)
  | .share entry => return (.nothing, ledger.enter (← ledger.label entry))
  | .rename entry name => do
    let label ← ledger.label entry
    return (.nothing, { ledger with labels := ledger.labels.rename label name })
  | .same first second => return (.truth ((← ledger.label first) = (← ledger.label second)), ledger)
  | .equal first second => do
    let first ← ledger.label first
    let second ← ledger.label second
    return (.truth (ledger.labels.nameOf first = ledger.labels.nameOf second), ledger)
  | .describe entry => return (.text (ledger.labels.describe (← ledger.label entry)), ledger)
  | .name entry => return (.text (ledger.labels.nameOf (← ledger.label entry)), ledger)
  | .addSupply supply => return (.nothing, { ledger with supplies := ledger.supplies ++ [supply] })
  | .fresh index =>
    match ledger.supplies[index]? with
    | none => .error .supply
    | some supply =>
      let (label, supply, labels) := supply.fresh ledger.labels
      let supplies := ledger.supplies.set index supply
      return (.nothing, { ledger with labels, supplies }.enter label)
  | .register =>
    return (.text (Register.numbered ledger.registers).text,
      { ledger with registers := ledger.registers + 1 })

/-- Carries out actions one after the other, with an empty ledger at first. -/
def run (actions : List Action) : Except Missing Ledger :=
  actions.foldlM (fun ledger action => return (← ledger.step action).2) {}

def names (ledger : Ledger) : List String := ledger.entries.map ledger.labels.nameOf

end Ledger

end Wabbit
