import Wabbit.Proofs.Flow.Inner

/-!
Linking keeps the text of a program. Main statement: the blocks of a linked function, without the jumps
that the linker has added, are the leaves and conditions of its statements, each of them once and in
the order of the text; and the number of blocks can be told from the statements.
-/

namespace Wabbit

open Stack

namespace Stack

/-- What the instructions of nested statements stand in. -/
inductive Source (α : Type) where
  | leaf (x : α)
  | condition (code : Code)

namespace Nested

variable {α : Type}

mutual

/-- The leaves and conditions of a statement in the order of the text: a condition comes before the
arms or the body that it decides on, and the first arm before the second one. -/
def sources : Nested α → List (Source α)
  | leaf x => [.leaf x]
  | ifElse condition ifTrue ifFalse => .condition condition :: (allSources ifTrue ++ allSources ifFalse)
  | loop condition body => .condition condition :: allSources body
  | function _ _ body => allSources body

def allSources : List (Nested α) → List (Source α)
  | [] => []
  | s :: rest => s.sources ++ allSources rest

end

mutual

/-- The number of arms and loop bodies in a statement that hold no statement. -/
def emptyArms : Nested α → Nat
  | leaf _ => 0
  | ifElse _ ifTrue ifFalse =>
    (if ifTrue.isEmpty then 1 else allEmptyArms ifTrue) +
      if ifFalse.isEmpty then 1 else allEmptyArms ifFalse
  | loop _ body => if body.isEmpty then 1 else allEmptyArms body
  | function _ _ body => allEmptyArms body

def allEmptyArms : List (Nested α) → Nat
  | [] => 0
  | s :: rest => s.emptyArms + allEmptyArms rest

end

end Nested

end Stack

namespace Flow

open Nested (allSources allLeaves allConditions allEmptyArms allFunctions)

/-- A block of a linked function, with what the linker has added kept apart. -/
inductive Part where
  /-- A leaf that ends in a jump or a return of its own. -/
  | closed (block : Block) (terminated : isTerminated block.instrs = true)
  /-- A leaf that runs on, and the label that it has got a jump to. -/
  | extended (block : Block) (running : isTerminated block.instrs = false) (next : Label)
  /-- A condition, under a new label and in front of a new branch. -/
  | test (condition : Code) (label ifTrue ifFalse : Label)
  /-- A new label and a new jump. -/
  | pass (label next : Label)

namespace Part

/-- The block that a part stands for. -/
def block : Part → Block
  | closed block _ => block
  | extended block _ next => ⟨block.label, block.instrs ++ [.goto next]⟩
  | test condition label ifTrue ifFalse => ⟨label, condition.instrs ++ [.branch ifTrue ifFalse]⟩
  | pass label next => ⟨label, [.goto next]⟩

/-- What is left without the additions of the linker. -/
def source? : Part → Option (Source Block)
  | closed block _ => some (.leaf block)
  | extended block _ _ => some (.leaf block)
  | test condition _ _ _ => some (.condition condition)
  | pass _ _ => none

private theorem exists_closeBlock (block : Block) (next : Label) :
    ∃ part : Part, part.block = closeBlock block next ∧ part.source? = some (.leaf block) := by
  unfold closeBlock
  by_cases terminated : isTerminated block.instrs = true
  · rw [if_pos terminated]
    exact ⟨.closed block terminated, rfl, rfl⟩
  · rw [if_neg terminated]
    exact ⟨.extended block (Bool.eq_false_iff.mpr terminated) next, rfl, rfl⟩

end Part

/-- Blocks in which all leaves and conditions of some statements are kept in order, and to which the
given number of blocks has been added. -/
structure Keeps (stmts : List (Nested Block)) (added : Nat) (blocks : List Block) : Prop where
  inOrder : ∃ parts : List Part, blocks = parts.map Part.block ∧
    parts.filterMap Part.source? = allSources stmts
  length : blocks.length = (allLeaves stmts).length + (allConditions stmts).length + added

namespace Keeps

variable {stmts arm₁ arm₂ body : List (Nested Block)} {added added₁ added₂ : Nat}
  {blocks blocks₁ blocks₂ : List Block}

theorem nil : Keeps [] 0 [] := ⟨⟨[], rfl, rfl⟩, rfl⟩

private theorem pass (label next : Label) : Keeps [] 1 [⟨label, [.goto next]⟩] :=
  ⟨⟨[.pass label next], rfl, rfl⟩, rfl⟩

private theorem leaf (block : Block) (next : Label) (others : Keeps stmts added blocks) :
    Keeps (.leaf block :: stmts) added (closeBlock block next :: blocks) := by
  obtain ⟨⟨parts, rfl, sources⟩, length⟩ := others
  obtain ⟨part, own, source⟩ := Part.exists_closeBlock block next
  refine ⟨⟨part :: parts, by rw [List.map_cons, own], ?_⟩, ?_⟩
  · rw [List.filterMap_cons_some source, sources]
    rfl
  · simp only [List.length_cons, length, allLeaves, allConditions, Nested.leaves, Nested.conditions,
      List.length_append, List.length_nil]
    omega

private theorem branch (condition : Code) (label ifTrue ifFalse : Label)
    (first : Keeps arm₁ added₁ blocks₁)
    (second : Keeps arm₂ added₂ blocks₂) (others : Keeps stmts added blocks) :
    Keeps (.ifElse condition arm₁ arm₂ :: stmts) (added₁ + added₂ + added)
      (test label condition ifTrue ifFalse :: (blocks₁ ++ blocks₂) ++ blocks) := by
  obtain ⟨⟨parts₁, rfl, sources₁⟩, length₁⟩ := first
  obtain ⟨⟨parts₂, rfl, sources₂⟩, length₂⟩ := second
  obtain ⟨⟨parts, rfl, sources⟩, length⟩ := others
  refine ⟨⟨.test condition label ifTrue ifFalse :: (parts₁ ++ parts₂) ++ parts, ?_, ?_⟩, ?_⟩
  · simp only [List.map_append, List.map_cons]
    rfl
  · simp only [List.filterMap_append, List.cons_append, List.filterMap_cons, Part.source?, sources₁,
      sources₂, sources, allSources, Nested.sources]
  · simp only [List.length_append, List.length_cons, length₁, length₂, length, allLeaves,
      allConditions, Nested.leaves, Nested.conditions]
    omega

private theorem loop (condition : Code) (label ifTrue ifFalse : Label)
    (round : Keeps body added₁ blocks₁)
    (others : Keeps stmts added blocks) :
    Keeps (.loop condition body :: stmts) (added₁ + added)
      (test label condition ifTrue ifFalse :: blocks₁ ++ blocks) := by
  obtain ⟨⟨parts₁, rfl, sources₁⟩, length₁⟩ := round
  obtain ⟨⟨parts, rfl, sources⟩, length⟩ := others
  refine ⟨⟨.test condition label ifTrue ifFalse :: parts₁ ++ parts, ?_, ?_⟩, ?_⟩
  · simp only [List.map_append, List.map_cons]
    rfl
  · simp only [List.filterMap_append, List.cons_append, List.filterMap_cons, Part.source?, sources₁,
      sources, allSources, Nested.sources]
  · simp only [List.length_append, List.length_cons, length₁, length, allLeaves, allConditions,
      Nested.leaves, Nested.conditions]
    omega

end Keeps

/-- Linked statements are kept, and nothing but a block for each empty arm is added. -/
theorem layAll_keeps_sources {next : Label} {stmts : List (Nested Block)} {l l' : Labelling}
    {out : Linked} (done : (layAll next stmts).run l = .ok (out, l')) :
    Keeps stmts (allEmptyArms stmts) out.blocks := by
  have arm {next : Label} {stmts : List (Nested Block)} {l l' : Labelling} {out : Linked}
      (inside : ∀ {l l' : Labelling} {out : Linked},
        (layAll next stmts).run l = .ok (out, l') → Keeps stmts (allEmptyArms stmts) out.blocks)
      (done : (layArm next stmts).run l = .ok (out, l')) :
      Keeps stmts (if stmts.isEmpty then 1 else allEmptyArms stmts) out.blocks := by
    unfold layArm at done
    split at done
    · rename_i empty
      cases done
      rw [List.isEmpty_iff.mp empty]
      exact .pass l.fresh.1 next
    · rename_i filled
      rw [if_neg filled]
      exact inside done
  induction stmts using Nested.inductionAll generalizing next l l' out with
  | nil =>
    cases done
    exact .nil
  | leaf block stmts ih =>
    obtain ⟨rest, others, rfl⟩ := layAll_leaf done
    rw [allEmptyArms, Nested.emptyArms, Nat.zero_add]
    exact (ih others).leaf block rest.entry
  | ifElse condition ifTrue ifFalse stmts ih₁ ih₂ ih =>
    obtain ⟨rest, arm₁, arm₂, m, m₁, m₂, others, first, second, -, rfl⟩ := layAll_branch done
    exact .branch condition _ _ _ (arm ih₁ first) (arm ih₂ second) (ih others)
  | loop condition body stmts ih₁ ih =>
    obtain ⟨rest, inner, m, others, round, rfl⟩ := layAll_loop done
    exact .loop condition _ _ _ (arm ih₁ round) (ih others)
  | function name parameters body stmts _ _ => exact absurd done layAll_function

/-- A function is linked exactly if it ends in a block that does not run on and holds no function. -/
theorem linkFunction_succeeds_iff (f : FunDef (Nested Block)) (l : Labelling) :
    (∃ g l', (linkFunction f).run l = .ok (g, l')) ↔
      allFunctions f.body = [] ∧ Nested.isClosed Block.instrs f.body = true := by
  constructor
  · rintro ⟨g, l', done⟩
    obtain ⟨closed, linked, laid, -⟩ := linkFunction_laidOut done ⟨0⟩
    exact ⟨laid.allFunctions_eq_nil, closed⟩
  · rintro ⟨flat, closed⟩
    rcases linkFunction_ends closed l with ⟨⟨g, l'⟩, done⟩ | ⟨name, inside, -⟩
    · exact ⟨g, l', done⟩
    · rw [flat] at inside
      cases inside

end Flow

namespace Items

open Nested (allFunctions allEmptyArms)

/-- A program is linked exactly if each function ends in a block that does not run on and holds no
function. Without what the linker has added, every linked function then consists of the leaves and
conditions of its statements in the order of the text, and it has one more block for each empty arm
or loop body. -/
theorem linked_keeps_sources (program : Items (Nested Block)) (l : Labelling) :
    (∀ f ∈ program.functions,
        allFunctions f.body = [] ∧ Nested.isClosed Block.instrs f.body = true) ↔
      ∃ linked l', program.link.run l = .ok (linked, l') ∧
        Items.Related (fun f g => g.name = f.name ∧ g.parameters = f.parameters ∧
          Flow.Keeps f.body (allEmptyArms f.body) g.body) program linked := by
  constructor
  · intro accepted
    have each : ∀ f ∈ program.functions, ∀ l, ∃ g l', (Flow.linkFunction f).run l = .ok (g, l') :=
      fun f member l => (Flow.linkFunction_succeeds_iff f l).mpr (accepted f member)
    obtain ⟨linked, l', done⟩ := mapFunctionsM_succeeds each l
    refine ⟨linked, l', done, (related_mapFunctionsM done).imp ?_⟩
    rintro f - g - ⟨m, m', own⟩
    obtain ⟨-, blocks, all, rfl⟩ := Flow.linkFunction_layAll own ⟨0⟩
    exact ⟨rfl, rfl, Flow.layAll_keeps_sources all⟩
  · rintro ⟨linked, l', done, -⟩ f member
    obtain ⟨g, -, m, m', own⟩ := (related_mapFunctionsM done).exists_right member
    exact (Flow.linkFunction_succeeds_iff f m).mp ⟨g, m', own⟩

end Items

end Wabbit
