import Wabbit.Stack.Basic

/-!
From straight statements to labelled blocks. Neighbouring statements go into one block; a branch, loop
or function ends the block, and so does a return, behind which nothing is ever reached.
-/

namespace Wabbit

/-- The labels made so far and the supply that new ones come from. -/
structure Labelling where
  labels : Labels := {}
  supply : LabelSupply := {}
  deriving DecidableEq, Repr

def Labelling.fresh (state : Labelling) : Label × Labelling :=
  let (label, supply, labels) := state.supply.fresh state.labels
  (label, ⟨labels, supply⟩)

namespace Stack

/-- Adds instructions to the block that is still open at the end of what is grouped so far. If there
is none, they get a block of their own, with a new label. -/
def extend (grouped : List (Nested Block)) (instrs : Straight) :
    StateM Labelling (List (Nested Block)) :=
  match grouped.getLast? with
  | some (.leaf block) =>
    if isTerminated block.instrs then start
    else pure (grouped.dropLast ++ [.leaf { block with instrs := block.instrs ++ instrs }])
  | _ => start
where
  start : StateM Labelling (List (Nested Block)) := do
    let label ← modifyGet Labelling.fresh
    pure (grouped ++ [.leaf ⟨label, instrs⟩])

mutual

/-- Adds a statement to what is grouped so far. The statements inside of it are grouped apart. -/
def Nested.group (grouped : List (Nested Block)) :
    Nested Straight → StateM Labelling (List (Nested Block))
  | leaf instrs => extend grouped instrs
  | ifElse condition ifTrue ifFalse => do
    let ifTrue ← Nested.groupAll [] ifTrue
    let ifFalse ← Nested.groupAll [] ifFalse
    pure (grouped ++ [.ifElse condition ifTrue ifFalse])
  | loop condition body => do
    let body ← Nested.groupAll [] body
    pure (grouped ++ [.loop condition body])
  | function name parameters body => do
    let body ← Nested.groupAll [] body
    pure (grouped ++ [.function name parameters body])

def Nested.groupAll (grouped : List (Nested Block)) :
    List (Nested Straight) → StateM Labelling (List (Nested Block))
  | [] => pure grouped
  | s :: rest => do
    let grouped ← s.group grouped
    Nested.groupAll grouped rest

end

end Stack

open Stack in
/-- The program with labelled blocks in place of its statements. -/
def Items.groupBlocks (program : Items (Nested Straight)) :
    StateM Labelling (Items (Nested Block)) :=
  program.mapFunctionsM fun f => do
    let body ← Nested.groupAll [] f.body
    pure (f.withBody body)

end Wabbit
