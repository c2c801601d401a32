import Wabbit.Proofs.Flow.Pieces
import Wabbit.Proofs.Names.Fresh

/-!
Linked programs as graphs of blocks. Main statement: every block has one terminator, at its end, every
jump leads to a block of the same function, and no two blocks of a program share a label or the name
of one.
-/

namespace Wabbit

open Stack

namespace Stack

/-- The labels that an instruction may lead to. -/
def Instr.targets : Instr → List Label
  | goto label => [label]
  | branch ifTrue ifFalse => [ifTrue, ifFalse]
  | _ => []

/-- The labels that a block may lead to. -/
def Block.targets (block : Block) : List Label := block.instrs.flatMap Instr.targets

/-- Whether the last of some instructions is a terminator, and no other one is. -/
def exitsOnce (instrs : List Instr) : Bool :=
  isTerminated instrs && !instrs.dropLast.any Instr.isTerminator

theorem exitsOnce_append_singleton {front : List Instr} {last : Instr}
    (plain : ∀ i ∈ front, i.isTerminator = false) (closes : last.isTerminator = true) :
    exitsOnce (front ++ [last]) = true := by
  simp only [exitsOnce, isTerminated_append_singleton, closes, List.dropLast_concat, Bool.true_and,
    Bool.not_eq_true', List.any_eq_false, Bool.not_eq_true]
  exact plain

theorem Instr.targets_eq_nil {i : Instr} (plain : i.isTerminator = false) : i.targets = [] := by
  cases i <;> simp_all [isTerminator, targets]

theorem targets_plain {instrs : List Instr} (plain : ∀ i ∈ instrs, i.isTerminator = false) :
    instrs.flatMap Instr.targets = [] :=
  List.flatMap_eq_nil_iff.mpr fun i member => Instr.targets_eq_nil (plain i member)

/-- Straight code leads to no label. -/
theorem targets_straight {instrs : List Instr} (straight : isStraight instrs = true) :
    instrs.flatMap Instr.targets = [] := by
  rcases isStraight_cases straight with ⟨-, plain⟩ | ⟨-, front, kind, rfl, plain⟩
  · exact targets_plain plain
  · simp [targets_plain plain, Instr.targets]

end Stack

namespace Flow

open Nested (allLeaves allConditions)

/-- All leaves of some statements are straight code, and no condition has a terminator. -/
def AllStraight (stmts : List (Nested Block)) : Prop :=
  (∀ block ∈ allLeaves stmts, isStraight block.instrs = true) ∧
    ∀ condition ∈ allConditions stmts, condition.isPlain = true

section Blocks

variable {block : Block} {next label ifTrue ifFalse : Label} {condition : Code}

private theorem exitsOnce_closeBlock (straight : isStraight block.instrs = true) (next : Label) :
    exitsOnce (closeBlock block next).instrs = true := by
  unfold closeBlock
  rcases isStraight_cases straight with ⟨running, plain⟩ | ⟨closed, front, kind, parts, plain⟩
  · simp only [running, Bool.false_eq_true, ↓reduceIte]
    exact exitsOnce_append_singleton plain rfl
  · rw [if_pos closed, parts]
    exact exitsOnce_append_singleton plain rfl

private theorem targets_closeBlock (straight : isStraight block.instrs = true) (next : Label) :
    (closeBlock block next).targets ⊆ [next] := by
  unfold closeBlock
  split <;> simp [Block.targets, targets_straight straight, Instr.targets]

theorem targets_test (plain : condition.isPlain = true) (label ifTrue ifFalse : Label) :
    (test label condition ifTrue ifFalse).targets = [ifTrue, ifFalse] := by
  have nowhere := targets_plain (by simpa [Code.isPlain] using plain : ∀ i ∈ condition.instrs, _)
  simp [test, Block.targets, nowhere, Instr.targets]

/-- Every block that straight statements become has one terminator, at its end. -/
theorem Made.exitsOnce {stmts : List (Nested Block)} (made : Made stmts block)
    (straight : AllStraight stmts) : exitsOnce block.instrs = true := by
  cases made with
  | leaf inside next => exact exitsOnce_closeBlock (straight.1 _ inside) next
  | test inside label ifTrue ifFalse =>
    have plain := straight.2 _ inside
    exact exitsOnce_append_singleton (by simpa [Code.isPlain] using plain) rfl
  | pass label next => rfl

end Blocks

section Statements

variable {stmts arm₁ arm₂ body : List (Nested Block)} {condition : Code} {block : Block}

theorem allStraight_leaf (straight : AllStraight (.leaf block :: stmts)) :
    isStraight block.instrs = true ∧ AllStraight stmts := by
  simp only [AllStraight, allLeaves, allConditions, Nested.leaves, Nested.conditions,
    List.forall_mem_append, List.forall_mem_singleton, List.nil_append] at straight
  exact ⟨straight.1.1, straight.1.2, straight.2⟩

theorem allStraight_branch (straight : AllStraight (.ifElse condition arm₁ arm₂ :: stmts)) :
    condition.isPlain = true ∧ AllStraight arm₁ ∧ AllStraight arm₂ ∧ AllStraight stmts := by
  simp only [AllStraight, allLeaves, allConditions, Nested.leaves, Nested.conditions,
    List.forall_mem_append, List.forall_mem_cons, List.cons_append] at straight
  obtain ⟨⟨⟨leaves₁, leaves₂⟩, leaves⟩, plain, ⟨conditions₁, conditions₂⟩, conditions⟩ := straight
  exact ⟨plain, ⟨leaves₁, conditions₁⟩, ⟨leaves₂, conditions₂⟩, leaves, conditions⟩

theorem allStraight_loop (straight : AllStraight (.loop condition body :: stmts)) :
    condition.isPlain = true ∧ AllStraight body ∧ AllStraight stmts := by
  simp only [AllStraight, allLeaves, allConditions, Nested.leaves, Nested.conditions,
    List.forall_mem_append, List.forall_mem_cons, List.cons_append] at straight
  obtain ⟨⟨inner, leaves⟩, plain, inner', conditions⟩ := straight
  exact ⟨plain, ⟨inner, inner'⟩, leaves, conditions⟩

end Statements

/-- Control enters statements by a known label, and goes on to known labels only, if the labels of
their blocks and of what follows them are known. -/
theorem LaidOut.leads {next : Label} {stmts : List (Nested Block)} {linked : Linked}
    {known : List Label} (laid : LaidOut next stmts linked) (straight : AllStraight stmts)
    (behind : next ∈ known) (own : ∀ block ∈ linked.blocks, block.label ∈ known) :
    linked.entry ∈ known ∧ ∀ block ∈ linked.blocks, block.targets ⊆ known := by
  induction laid with
  | nil => exact ⟨behind, nofun⟩
  | pass label =>
    refine ⟨own _ (List.mem_singleton_self _), List.forall_mem_singleton.mpr ?_⟩
    simpa [Block.targets, Instr.targets] using behind
  | @leaf next stmts rest block others ih =>
    obtain ⟨plain, straight⟩ := allStraight_leaf straight
    obtain ⟨first, own⟩ := List.forall_mem_cons.mp own
    obtain ⟨entry, leads⟩ := ih straight behind own
    have closed : (closeBlock block rest.entry).targets ⊆ known :=
      List.Subset.trans (targets_closeBlock plain rest.entry) (by simpa using entry)
    exact ⟨by simpa using first, List.forall_mem_cons.mpr ⟨closed, leads⟩⟩
  | branch label others first second ih ih₁ ih₂ =>
    obtain ⟨plain, straight₁, straight₂, straight⟩ := allStraight_branch straight
    simp only [List.cons_append, List.append_assoc, List.forall_mem_cons,
      List.forall_mem_append] at own ⊢
    obtain ⟨test, own₁, own₂, own⟩ := own
    obtain ⟨entry, leads⟩ := ih straight behind own
    obtain ⟨entry₁, leads₁⟩ := ih₁ straight₁ entry own₁
    obtain ⟨entry₂, leads₂⟩ := ih₂ straight₂ entry own₂
    refine ⟨test, ?_, leads₁, leads₂, leads⟩
    simp [targets_test plain, entry₁, entry₂]
  | loop label others round ih ih₁ =>
    obtain ⟨plain, straight₁, straight⟩ := allStraight_loop straight
    simp only [List.cons_append, List.forall_mem_cons, List.forall_mem_append] at own ⊢
    obtain ⟨test, own₁, own⟩ := own
    obtain ⟨entry, leads⟩ := ih straight behind own
    obtain ⟨entry₁, leads₁⟩ := ih₁ straight₁ test own₁
    refine ⟨test, ?_, leads₁, leads⟩
    simp [targets_test plain, entry₁, entry]

/-- The blocks of a function each have one terminator, at their end, and lead to each other only. -/
structure IsGraph (blocks : List Block) : Prop where
  exits : ∀ block ∈ blocks, exitsOnce block.instrs = true
  targets : ∀ block ∈ blocks, ∀ target ∈ block.targets, ∃ other ∈ blocks, other.label = target

theorem linkFunction_isGraph {f : FunDef (Nested Block)} {g : FunDef Block} {l l' : Labelling}
    (done : (linkFunction f).run l = .ok (g, l')) (straight : AllStraight f.body) :
    IsGraph g.body := by
  -- Nothing leads behind the final block, so its own label may stand for what follows it.
  obtain ⟨before, last, front, -, -, -, ends⟩ := linkFunction_inv done
  obtain ⟨-, linked, laid, rfl⟩ := linkFunction_laidOut done last.label
  have blocks : linked.blocks = front.blocks ++ [last] := congrArg FunDef.body ends
  have final : last.label ∈ linked.blocks.map Block.label := by simp [blocks]
  obtain ⟨-, leads⟩ := laid.leads straight final fun block => List.mem_map_of_mem
  refine ⟨fun block member => (laid.made block member).exitsOnce straight, ?_⟩
  intro block member target inside
  exact List.mem_map.mp (leads block member inside)

end Flow

/-! ### Names of labels -/

/-- The labels made since a first state bear the names that its supply had next. -/
structure Labelling.Counted (start l : Labelling) : Prop where
  grows : start.size ≤ l.size
  stem : l.supply.stem = start.supply.stem
  next : l.supply.next = start.supply.next + (l.size - start.size)
  names : ∀ label : Label, start.size ≤ label.id → label.id < l.size →
    l.labels.nameOf label = start.supply.stem ++ toString (start.supply.next + (label.id - start.size))

namespace Labelling.Counted

variable {start l : Labelling}

theorem refl (start : Labelling) : Counted start start :=
  ⟨Nat.le_refl _, rfl, by simp, fun label old new => absurd new (Nat.not_lt.mpr old)⟩

theorem fresh (counted : Counted start l) : Counted start l.fresh.2 where
  grows := by
    rw [size_fresh]
    exact Nat.le_succ_of_le counted.grows
  stem := counted.stem
  next := by
    have := counted.grows
    have := counted.next
    change l.supply.next + 1 = _
    rw [size_fresh]
    omega
  names label old new := by
    rw [size_fresh] at new
    rcases Nat.lt_succ_iff_lt_or_eq.mp new with before | own
    · rw [← counted.names label old before]
      exact (l.labels.nameOf_make _ label before).2
    · have made : l.fresh.2.labels.nameOf label = l.supply.stem ++ toString l.supply.next := by
        obtain ⟨id⟩ := label
        cases own
        simp [Labelling.fresh, LabelSupply.fresh, LabelSupply.take, Labels.make, Labels.nameOf]
      rw [made, counted.stem, counted.next, own]

/-- Labels that were made since a first state have different names if they are different. -/
theorem nodup_names (counted : Counted start l) {labels : List Label}
    (made : start.Makes l labels) : (labels.map l.labels.nameOf).Nodup := by
  refine List.Nodup.map_on ?_ made.nodup
  intro first inFirst second inSecond same
  obtain ⟨old, new⟩ := made.mem inFirst
  obtain ⟨old', new'⟩ := made.mem inSecond
  rw [counted.names first old new, counted.names second old' new'] at same
  have numbers := toString_injective ((String.append_right_inj _).mp same)
  have ids : first.id = second.id := by omega
  cases first
  cases second
  exact congrArg Label.mk ids

end Labelling.Counted

section Keeping

variable {holds : Labelling → Prop} (step : ∀ l, holds l → holds l.fresh.2)
include step

/-- What making a label keeps is kept by grouping, which does nothing else with labels. -/
theorem Stack.Nested.labelAll_keeps (stmts : List (Nested Straight)) {l : Labelling}
    (start : holds l) : holds ((labelAll stmts).run l).2 := by
  induction stmts using inductionAll generalizing l with
  | nil => exact start
  | leaf instrs rest ih => exact ih (step l start)
  | ifElse condition ifTrue ifFalse rest first second ih => exact ih (second (first start))
  | loop condition body rest inner ih => exact ih (inner start)
  | function name parameters body rest inner ih => exact ih (inner start)

theorem Items.groupBlocks_keeps (program : Items (Nested Straight)) {l : Labelling}
    (start : holds l) : holds (program.groupBlocks.run l).2 := by
  rw [groupBlocks_eq]
  induction program generalizing l with
  | nil => exact start
  | cons item rest ih =>
    cases item with
    | global symbol => exact ih start
    | function f => exact ih (Nested.labelAll_keeps step (Nested.joinAllRuns f.body) start)

/-- It is kept by linking as well. -/
theorem Flow.layAll_keeps {next : Label} {stmts : List (Nested Block)} {l l' : Labelling}
    {out : Linked} (done : (layAll next stmts).run l = .ok (out, l')) (start : holds l) :
    holds l' := by
  have arm {next : Label} {stmts : List (Nested Block)} {l l' : Labelling} {out : Linked}
      (inside : ∀ {l l' : Labelling} {out : Linked},
        (layAll next stmts).run l = .ok (out, l') → holds l → holds l')
      (done : (layArm next stmts).run l = .ok (out, l')) (start : holds l) : holds l' := by
    rcases layArm_cases done with ⟨rfl, rfl, rfl⟩ | done
    · exact step l start
    · exact inside done start
  induction stmts using Nested.inductionAll generalizing next l l' out with
  | nil =>
    cases done
    exact start
  | leaf block stmts ih =>
    obtain ⟨rest, others, rfl⟩ := layAll_leaf done
    exact ih others start
  | ifElse condition ifTrue ifFalse stmts ih₁ ih₂ ih =>
    obtain ⟨rest, arm₁, arm₂, m, m₁, m₂, others, first, second, rfl, rfl⟩ := layAll_branch done
    exact step m₂ (arm ih₂ second (arm ih₁ first (ih others start)))
  | loop condition body stmts ih₁ ih =>
    obtain ⟨rest, inner, m, others, round, rfl⟩ := layAll_loop done
    exact arm ih₁ round (step m (ih others start))
  | function name parameters body stmts _ _ => exact absurd done layAll_function

private theorem Items.link_keeps {program : Items (Nested Block)} {linked : Items Block}
    {l l' : Labelling}
    (done : program.link.run l = .ok (linked, l')) (start : holds l) : holds l' := by
  induction program generalizing linked l l' with
  | nil =>
    cases done
    exact start
  | cons item rest ih =>
    cases item with
    | global symbol =>
      obtain ⟨others, recursive, rfl⟩ := mapFunctionsM_global done
      exact ih recursive start
    | function f =>
      obtain ⟨g, others, u, own, recursive, rfl⟩ := mapFunctionsM_function done
      obtain ⟨before, last, front, -, -, linked, -⟩ := Flow.linkFunction_inv own
      exact ih recursive (Flow.layAll_keeps step linked start)

end Keeping

/-! ### Programs -/

/-- Whether the leaves of a function hold no jump, and a return at their end only, and its conditions
have no terminator. This is asked of functions inside it, too. -/
def FunDef.isStraight (f : FunDef (Nested Straight)) : Bool :=
  (Nested.allLeaves f.body).all Stack.isStraight && (Nested.allConditions f.body).all Code.isPlain

namespace Items

theorem labelled_allStraight {f : FunDef (Nested Straight)} (straight : f.isStraight = true)
    (l : Labelling) :
    Flow.AllStraight ((Nested.labelAll (Nested.joinAllRuns f.body)).run l).1 := by
  simp only [FunDef.isStraight, Bool.and_eq_true, List.all_eq_true] at straight
  obtain ⟨leaves, conditions⟩ := straight
  have joins (front back : Straight) (first : Stack.isStraight front = true)
      (running : isTerminated front = false) (second : Stack.isStraight back = true) :
      Stack.isStraight (front ++ back) = true := by
    rcases isStraight_cases first with ⟨-, plain⟩ | ⟨closed, -⟩
    · exact isStraight_append plain second
    · simp [running] at closed
  have runs := Nested.allLeaves_joinAllRuns joins leaves
  constructor
  · intro block member
    have inside := List.mem_map_of_mem (f := Block.instrs) member
    rw [Nested.allLeaves_labelAll] at inside
    exact runs block.instrs inside
  · rw [Nested.allConditions_labelAll, Nested.allConditions_joinAllRuns]
    exact conditions

/-- A program that is grouped and linked is a graph: in every function, every block has one
terminator, at its end, and every jump leads to a block of that function; and no two blocks of the
program share a label or a name. -/
theorem linked_isGraph {program : Items (Nested Straight)} {linked : Items Block}
    {l l' : Labelling} (straight : ∀ f ∈ program.functions, f.isStraight = true)
    (done : (program.groupBlocks.run l).1.link.run (program.groupBlocks.run l).2 =
      .ok (linked, l')) :
    (∀ f ∈ linked.functions, Flow.IsGraph f.body) ∧ linked.blockLabels.Nodup ∧
      (linked.blockLabels.map l'.labels.nameOf).Nodup := by
  have made := link_groupBlocks_makes done
  have grouped := groupBlocks_keeps (fun _ => .fresh) program (Labelling.Counted.refl l)
  have counted := link_keeps (fun _ => .fresh) done grouped
  refine ⟨?_, made.nodup, counted.nodup_names made⟩
  intro h member
  obtain ⟨g, inside, m, m', own⟩ := (related_mapFunctionsM done).exists_left member
  obtain ⟨f, source, n, rfl⟩ := (related_groupBlocks program l).exists_left inside
  exact Flow.linkFunction_isGraph own (labelled_allStraight (straight f source) n)

/-- Two functions with a branch inside a loop, an empty arm, an empty loop and code behind a return,
linked with a supply that has been used before. -/
theorem linked_isGraph_loops :
    let x : Ast.Symbol := .stack "x" .integer
    let isOdd : Code := ⟨[.load x], .integer⟩
    let back : Nested Straight := .leaf [.push (.int 0), .ret .integer]
    let f : FunDef (Nested Straight) := ⟨.global "f" .integer, [], [.leaf [.slot ⟨"x", .integer⟩],
      .loop isOdd [.ifElse isOdd [] [back, .leaf [.call "g" 0 .integer]]], back]⟩
    let g : FunDef (Nested Straight) := ⟨.global "g" .integer, [x], [.loop isOdd [], back]⟩
    let program : Items (Nested Straight) := [.function f, .global x, .function g]
    let l : Labelling := { supply := ⟨"B", 3⟩ }
    (∀ f ∈ program.functions, f.isStraight = true) ∧ ∃ linked l',
      (program.groupBlocks.run l).1.link.run (program.groupBlocks.run l).2 = .ok (linked, l') ∧
      linked.blockLabels.map l'.labels.nameOf =
        ["B3", "B8", "B10", "B9", "B4", "B5", "B6", "B11", "B12", "B7"] ∧
      (∀ f ∈ linked.functions, Flow.IsGraph f.body) ∧ linked.blockLabels.Nodup ∧
        (linked.blockLabels.map l'.labels.nameOf).Nodup := by
  intro x isOdd back f g program l
  have straight : ∀ f ∈ program.functions, f.isStraight = true := by decide
  obtain ⟨linked, l', done, names⟩ : ∃ linked l',
      (program.groupBlocks.run l).1.link.run (program.groupBlocks.run l).2 = .ok (linked, l') ∧
      linked.blockLabels.map l'.labels.nameOf =
        ["B3", "B8", "B10", "B9", "B4", "B5", "B6", "B11", "B12", "B7"] :=
    ⟨_, _, rfl, by decide⟩
  exact ⟨straight, linked, l', done, names, linked_isGraph straight done⟩

end Items

end Wabbit
