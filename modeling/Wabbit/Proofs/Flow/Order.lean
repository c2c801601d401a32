import Wabbit.Flow

/-!
The order in which linked blocks stand. The linker collects them from the back to the front and turns
them around once for every function; the same blocks with the same labels come in the order of the
text if every statement puts its own blocks in front of those of the statements behind it.
-/

namespace Wabbit.Flow

open Stack

mutual

/-- The blocks of a statement in front of `next`, in the order of the text. -/
def layStmt (next : Label) : Nested Block → Link Linked
  | .leaf block => pure ⟨[closeBlock block next], block.label⟩
  | .ifElse condition ifTrue ifFalse => do
    let ifTrue ← (if ifTrue.isEmpty then passThrough next else layAll next ifTrue)
    let ifFalse ← (if ifFalse.isEmpty then passThrough next else layAll next ifFalse)
    let label ← fresh
    let test := test label condition ifTrue.entry ifFalse.entry
    pure ⟨test :: (ifTrue.blocks ++ ifFalse.blocks), label⟩
  | .loop condition body => do
    let label ← fresh
    let body ← (if body.isEmpty then passThrough label else layAll label body)
    pure ⟨test label condition body.entry next :: body.blocks, label⟩
  | .function name _ _ => throw (.innerFunction name.text)

/-- The blocks of several statements in front of `next`, in the order of the text. -/
def layAll (next : Label) : List (Nested Block) → Link Linked
  | [] => pure ⟨[], next⟩
  | s :: rest => do
    let rest ← layAll next rest
    let s ← layStmt rest.entry s
    pure ⟨s.blocks ++ rest.blocks, s.entry⟩

end

/-- The blocks of the arm of a branch or of the body of a loop. -/
def layArm (next : Label) (stmts : List (Nested Block)) : Link Linked :=
  if stmts.isEmpty then passThrough next else layAll next stmts

theorem layStmt_branch (next : Label) (condition : Code) (ifTrue ifFalse : List (Nested Block)) :
    layStmt next (.ifElse condition ifTrue ifFalse) = (do
      let arm₁ ← layArm next ifTrue
      let arm₂ ← layArm next ifFalse
      let label ← fresh
      pure ⟨test label condition arm₁.entry arm₂.entry :: (arm₁.blocks ++ arm₂.blocks), label⟩) := by
  rw [layStmt]
  rfl

theorem layStmt_loop (next : Label) (condition : Code) (body : List (Nested Block)) :
    layStmt next (.loop condition body) = (do
      let label ← fresh
      let inner ← layArm label body
      pure ⟨test label condition inner.entry next :: inner.blocks, label⟩) := by
  rw [layStmt]
  rfl

/-- The blocks from the back to the front, behind those collected before. -/
def Linked.behind (collected : List Block) (laid : Linked) : Linked :=
  ⟨collected ++ laid.blocks.reverse, laid.entry⟩

theorem Linked.behind_eq (collected : List Block) :
    behind collected = fun laid => ⟨collected ++ laid.blocks.reverse, laid.entry⟩ := rfl

private theorem Linked.behind_nil_pass (next : Label) :
    Linked.behind [] <$> passThrough next = passThrough next := by
  simp [passThrough, behind]

/-- What an arm is linked to, if that is known of its statements. -/
theorem linkArm_eq {stmts : List (Nested Block)}
    (inside : ∀ next, linkAll next [] stmts = Linked.behind [] <$> layAll next stmts)
    (next : Label) : (if stmts.isEmpty then passThrough next else linkAll next [] stmts) =
      Linked.behind [] <$> layArm next stmts := by
  unfold layArm
  split
  · exact (Linked.behind_nil_pass next).symm
  · exact inside next

mutual

theorem linkStmt_eq (next : Label) (collected : List Block) (s : Nested Block) :
    linkStmt next collected s = Linked.behind collected <$> layStmt next s := by
  cases s with
  | leaf block => simp [linkStmt, layStmt, Linked.behind]
  | ifElse condition ifTrue ifFalse =>
    rw [linkStmt, linkArm_eq (fun next => linkAll_eq next [] ifTrue),
      linkArm_eq (fun next => linkAll_eq next [] ifFalse), layStmt_branch]
    simp [Linked.behind]
  | loop condition body =>
    rw [linkStmt, layStmt_loop]
    simp only [linkArm_eq (fun next => linkAll_eq next [] body)]
    simp [Linked.behind]
  | function name parameters body =>
    rw [linkStmt, layStmt]
    rfl

/-- The linker collects from the back to the front what stands in the order of the text. -/
theorem linkAll_eq (next : Label) (collected : List Block) (stmts : List (Nested Block)) :
    linkAll next collected stmts = Linked.behind collected <$> layAll next stmts := by
  cases stmts with
  | nil => simp [linkAll, layAll, Linked.behind]
  | cons s rest =>
    rw [linkAll, layAll, linkAll_eq next collected rest]
    simp [linkStmt_eq, Linked.behind_eq]

end

/-- The blocks of a function stand in the order of the text. -/
theorem linkFunction_eq {f : FunDef (Nested Block)} {before : List (Nested Block)} {last : Block}
    (parts : splitLast? f.body = some (before, last)) :
    linkFunction f = (do
      let laid ← layAll last.label before
      pure (f.withBody (laid.blocks ++ [last]))) := by
  rw [linkFunction, parts]
  simp [linkAll_eq, Linked.behind]

end Wabbit.Flow
