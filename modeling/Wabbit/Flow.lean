import Wabbit.Error
import Wabbit.Stack.Grouping

/-!
Dissolving branches and loops into blocks that jump to each other. Every list of statements is
linked from its end, where the label of what comes next is known; a block that does not end in a
jump gets one to that label.
-/

namespace Wabbit

open Stack

namespace Flow

abbrev Link (α : Type) := StateT Labelling (Except CompileError) α

def fresh : Link Label := modifyGet Labelling.fresh

/-- Blocks, and the label by which control enters them. -/
structure Linked where
  blocks : List Block
  entry : Label

/-- The block that decides a branch or a loop. -/
def test (label : Label) (condition : Code) (ifTrue ifFalse : Label) : Block :=
  ⟨label, condition.instrs ++ [.branch ifTrue ifFalse]⟩

/-- The block, with a jump to `next` unless it ends in one. -/
def closeBlock (block : Block) (next : Label) : Block :=
  if isTerminated block.instrs then block
  else { block with instrs := block.instrs ++ [.goto next] }

/-- A block that only jumps on. -/
def passThrough (next : Label) : Link Linked := do
  let entry ← fresh
  pure ⟨[⟨entry, [.goto next]⟩], entry⟩

mutual

/-- Links a statement in front of `next` and adds its blocks, back to front, to those collected so
far. Of a branch the first arm is linked first, and the test gets its label last; the test of a loop
gets its label first. An empty arm becomes a block of its own. -/
def linkStmt (next : Label) (collected : List Block) : Nested Block → Link Linked
  | .leaf block => pure ⟨collected ++ [closeBlock block next], block.label⟩
  | .ifElse condition ifTrue ifFalse => do
    let ifTrue ← (if ifTrue.isEmpty then passThrough next else linkAll next [] ifTrue)
    let ifFalse ← (if ifFalse.isEmpty then passThrough next else linkAll next [] ifFalse)
    let label ← fresh
    let test := test label condition ifTrue.entry ifFalse.entry
    pure ⟨collected ++ ifFalse.blocks ++ ifTrue.blocks ++ [test], label⟩
  | .loop condition body => do
    let label ← fresh
    let body ← (if body.isEmpty then passThrough label else linkAll label [] body)
    pure ⟨collected ++ body.blocks ++ [test label condition body.entry next], label⟩
  | .function name _ _ => throw (.innerFunction name.text)

/-- Links statements in front of `next`, the last one first. The block that control enters from above
is the last one collected. -/
def linkAll (next : Label) (collected : List Block) : List (Nested Block) → Link Linked
  | [] => pure ⟨collected, next⟩
  | s :: rest => do
    let rest ← linkAll next collected rest
    linkStmt rest.entry rest.blocks s

end

/-- The final block of a body and what stands before it, if that block returns. -/
def splitLast? (body : List (Nested Block)) : Option (List (Nested Block) × Block) :=
  match body.getLast? with
  | some (.leaf block) => if isTerminated block.instrs then some (body.dropLast, block) else none
  | _ => none

/-- Links the body of a function, which ends in a block that returns, and puts its blocks into the
order of the text. -/
def linkFunction (f : FunDef (Nested Block)) : Link (FunDef Block) := do
  let some (before, last) := splitLast? f.body | throw (.missingReturn f.name.text)
  let linked ← linkAll last.label [] before
  pure (f.withBody (linked.blocks.reverse ++ [last]))

end Flow

/-- The program with blocks that jump to each other in place of branches and loops. -/
def Items.link (program : Items (Nested Block)) : Flow.Link (Items Block) :=
  program.mapFunctionsM Flow.linkFunction

/-- Renames all blocks of a program to `L0`, `L1`, … in the order in which they stand there. -/
def Items.relabel (program : Items Block) (labels : Labels) : Labels :=
  let blocks := program.functions.flatMap FunDef.body
  let step (state : Labels × LabelSupply) (block : Block) : Labels × LabelSupply :=
    let (name, supply) := state.2.take
    (state.1.rename block.label name, supply)
  (blocks.foldl step (labels, {})).1

end Wabbit
