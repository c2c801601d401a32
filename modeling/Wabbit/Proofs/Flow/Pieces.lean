import Wabbit.Proofs.Flow.Labels

/-!
What the blocks of a linked program are made of. Every block is a leaf of the statements, closed by a
jump if it ran on, or a condition in front of its branch, or a block that only jumps on. So whatever
is known of all leaves and conditions of a program carries over to its blocks.
-/

namespace Wabbit

open Stack

namespace Stack.Nested

variable {α : Type}

mutual

/-- The leaves of a statement, those of functions inside it as well. -/
def leaves : Nested α → List α
  | leaf x => [x]
  | ifElse _ ifTrue ifFalse => allLeaves ifTrue ++ allLeaves ifFalse
  | loop _ body => allLeaves body
  | function _ _ body => allLeaves body

def allLeaves : List (Nested α) → List α
  | [] => []
  | s :: rest => s.leaves ++ allLeaves rest

end

mutual

/-- The conditions of the branches and loops in a statement, also inside of functions. -/
def conditions : Nested α → List Code
  | leaf _ => []
  | ifElse condition ifTrue ifFalse => condition :: (allConditions ifTrue ++ allConditions ifFalse)
  | loop condition body => condition :: allConditions body
  | function _ _ body => allConditions body

def allConditions : List (Nested α) → List Code
  | [] => []
  | s :: rest => s.conditions ++ allConditions rest

end

private theorem allConditions_joinRun (instrs : Straight) (rest : List (Nested Straight)) :
    allConditions (joinRun instrs rest) = allConditions rest := by
  rcases joinRun_cases instrs rest with same | ⟨-, next, others, rfl, same⟩
  · rw [same]
    rfl
  · rw [same]
    rfl

/-- Joining leaves into runs leaves all conditions as they are. -/
theorem allConditions_joinAllRuns (stmts : List (Nested Straight)) :
    allConditions (joinAllRuns stmts) = allConditions stmts := by
  induction stmts using inductionAll with
  | nil => rfl
  | leaf instrs rest ih =>
    rw [joinAllRuns, allConditions_joinRun, ih]
    rfl
  | ifElse condition ifTrue ifFalse rest first second ih =>
    simp only [joinAllRuns, joinRuns, allConditions, conditions, first, second, ih]
  | loop condition body rest inner ih | function name parameters body rest inner ih =>
    simp only [joinAllRuns, joinRuns, allConditions, conditions, inner, ih]

section Joining

variable {holds : Straight → Prop}
  (joins : ∀ front back, holds front → isTerminated front = false → holds back →
    holds (front ++ back))
include joins

private theorem allLeaves_joinRun {instrs : Straight} {rest : List (Nested Straight)}
    (own : holds instrs)
    (others : ∀ leaf ∈ allLeaves rest, holds leaf) :
    ∀ leaf ∈ allLeaves (joinRun instrs rest), holds leaf := by
  rcases joinRun_cases instrs rest with same | ⟨running, next, rest, rfl, same⟩
  · rw [same]
    exact List.forall_mem_cons.mpr ⟨own, others⟩
  · rw [same]
    obtain ⟨second, others⟩ := List.forall_mem_cons.mp others
    exact List.forall_mem_cons.mpr ⟨joins instrs next own running second, others⟩

/-- What holds of all leaves, and of two leaves joined if the first one runs on, holds of all
runs. -/
theorem allLeaves_joinAllRuns {stmts : List (Nested Straight)}
    (all : ∀ leaf ∈ allLeaves stmts, holds leaf) :
    ∀ leaf ∈ allLeaves (joinAllRuns stmts), holds leaf := by
  induction stmts using inductionAll with
  | nil => exact nofun
  | leaf instrs rest ih =>
    obtain ⟨own, others⟩ := List.forall_mem_cons.mp all
    exact allLeaves_joinRun joins own (ih others)
  | ifElse condition ifTrue ifFalse rest first second ih =>
    simp only [allLeaves, leaves, List.forall_mem_append] at all
    obtain ⟨⟨inFirst, inSecond⟩, others⟩ := all
    simp only [joinAllRuns, joinRuns, allLeaves, leaves, List.forall_mem_append]
    exact ⟨⟨first inFirst, second inSecond⟩, ih others⟩
  | loop condition body rest inner ih | function name parameters body rest inner ih =>
    simp only [allLeaves, leaves, List.forall_mem_append] at all
    simp only [joinAllRuns, joinRuns, allLeaves, leaves, List.forall_mem_append]
    exact ⟨inner all.1, ih all.2⟩

end Joining

theorem allConditions_labelAll (stmts : List (Nested Straight)) (l : Labelling) :
    allConditions ((labelAll stmts).run l).1 = allConditions stmts := by
  induction stmts using inductionAll generalizing l with
  | nil => rfl
  | leaf instrs rest ih => exact ih _
  | ifElse condition ifTrue ifFalse rest first second ih =>
    have arms := congrArg₂ (· ++ ·) (first l) (second ((labelAll ifTrue).run l).2)
    exact congrArg₂ (condition :: · ++ ·) arms (ih _)
  | loop condition body rest inner ih => exact congrArg₂ (condition :: · ++ ·) (inner l) (ih _)
  | function name parameters body rest inner ih => exact congrArg₂ (· ++ ·) (inner l) (ih _)

/-- Every run becomes a block under a label. -/
theorem allLeaves_labelAll (stmts : List (Nested Straight)) (l : Labelling) :
    (allLeaves ((labelAll stmts).run l).1).map Block.instrs = allLeaves stmts := by
  induction stmts using inductionAll generalizing l with
  | nil => rfl
  | leaf instrs rest ih => exact congrArg (instrs :: ·) (ih _)
  | ifElse condition ifTrue ifFalse rest first second ih =>
    have arms := congrArg₂ (· ++ ·) (first l) (second ((labelAll ifTrue).run l).2)
    have all := congrArg₂ (· ++ ·) arms (ih ((labelAll ifFalse).run ((labelAll ifTrue).run l).2).2)
    rw [← List.map_append, ← List.map_append] at all
    exact all
  | loop condition body rest inner ih | function name parameters body rest inner ih =>
    have all := congrArg₂ (· ++ ·) (inner l) (ih ((labelAll body).run l).2)
    rw [← List.map_append] at all
    exact all

end Stack.Nested

namespace Flow

open Nested (allLeaves allConditions)

/-- The blocks that statements may become. -/
inductive Made (stmts : List (Nested Block)) : Block → Prop where
  | leaf {block : Block} (inside : block ∈ allLeaves stmts) (next : Label) :
      Made stmts (closeBlock block next)
  | test {condition : Code} (inside : condition ∈ allConditions stmts)
      (label ifTrue ifFalse : Label) : Made stmts (test label condition ifTrue ifFalse)
  | pass (label next : Label) : Made stmts ⟨label, [.goto next]⟩

private theorem Made.mono {stmts stmts' : List (Nested Block)} {block : Block} (made : Made stmts block)
    (moreLeaves : allLeaves stmts ⊆ allLeaves stmts')
    (moreConditions : allConditions stmts ⊆ allConditions stmts') : Made stmts' block := by
  cases made with
  | leaf inside next => exact .leaf (moreLeaves inside) next
  | test inside label ifTrue ifFalse => exact .test (moreConditions inside) label ifTrue ifFalse
  | pass label next => exact .pass label next

/-- Statements become nothing but such blocks. -/
theorem LaidOut.made {next : Label} {stmts : List (Nested Block)} {linked : Linked}
    (laid : LaidOut next stmts linked) : ∀ block ∈ linked.blocks, Made stmts block := by
  induction laid with
  | nil => exact nofun
  | @pass next label => exact List.forall_mem_singleton.mpr (.pass label next)
  | @leaf next stmts rest block others ih =>
    refine List.forall_mem_cons.mpr ⟨.leaf (by simp [allLeaves, Nested.leaves]) _, ?_⟩
    intro other member
    exact (ih other member).mono (by simp [allLeaves]) (by simp [allConditions])
  | branch label others first second ih ih₁ ih₂ =>
    simp only [List.cons_append, List.append_assoc, List.forall_mem_cons, List.forall_mem_append]
    refine ⟨.test (by simp [allConditions, Nested.conditions]) .., ?_, ?_, ?_⟩
    · intro block member
      refine (ih₁ block member).mono ?_ ?_ <;> intro x <;>
        simp +contextual [allLeaves, Nested.leaves, allConditions, Nested.conditions]
    · intro block member
      refine (ih₂ block member).mono ?_ ?_ <;> intro x <;>
        simp +contextual [allLeaves, Nested.leaves, allConditions, Nested.conditions]
    · intro block member
      exact (ih block member).mono (by simp [allLeaves]) (by simp [allConditions])
  | loop label others round ih ih₁ =>
    simp only [List.cons_append, List.forall_mem_cons, List.forall_mem_append]
    refine ⟨.test (by simp [allConditions, Nested.conditions]) .., ?_, ?_⟩
    · intro block member
      refine (ih₁ block member).mono ?_ ?_ <;> intro x <;>
        simp +contextual [allLeaves, Nested.leaves, allConditions, Nested.conditions]
    · intro block member
      exact (ih block member).mono (by simp [allLeaves]) (by simp [allConditions])

end Flow

end Wabbit
