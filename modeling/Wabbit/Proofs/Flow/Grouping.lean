import Mathlib.Data.List.Chain
import Wabbit.Proofs.Flow.Graph

/-!
Grouping keeps the text of a program. Main statement: between two branches, loops or functions the
blocks of a grouped program hold the instructions of its statements in their order, a block ends only
where it has to, and the labels are numbered in the order of the blocks.
-/

namespace Wabbit

open Stack

namespace Stack

/-- Whether only the last of some instructions can be a terminator. -/
def isRun (instrs : List Instr) : Bool := !instrs.dropLast.any Instr.isTerminator

/-- What runs on is a run together with any run behind it. -/
theorem isRun_append {front back : List Instr} (first : isRun front = true)
    (running : isTerminated front = false) (second : isRun back = true) :
    isRun (front ++ back) = true := by
  cases back with
  | nil =>
    rw [List.append_nil]
    exact first
  | cons i rest =>
    have plain : ∀ i ∈ front, i.isTerminator = false := by
      rcases List.eq_nil_or_concat front with rfl | ⟨before, last, rfl⟩
      · exact nofun
      · simp only [List.concat_eq_append, isTerminated_append_singleton] at running
        simp_all [isRun, or_imp]
    rw [isRun, List.dropLast_append_of_ne_nil (by simp)]
    simp_all [isRun]

/-- Leaves that stand side by side, cut into runs. -/
structure Cuts (leaves runs : List Straight) : Prop where
  /-- No instruction is lost, and all stay in order. -/
  kept : runs.flatten = leaves.flatten
  closed : ∀ run ∈ runs, isRun run = true
  /-- What stands in front of another run does not run on. -/
  parted : runs.IsChain fun run _ => isTerminated run = true
  needed : runs = [] ↔ leaves = []

namespace Cuts

variable {leaves runs : List Straight} {leaf : Straight}

theorem nil : Cuts [] [] := ⟨rfl, nofun, .nil, .rfl⟩

/-- One more leaf in front is joined with the first run, or it is a run of its own. -/
theorem cons (cuts : Cuts leaves runs) (run : isRun leaf = true) :
    ∃ joined, Cuts (leaf :: leaves) joined ∧ ∀ rest : List (Nested Straight),
      (∀ instrs, rest.head? ≠ some (.leaf instrs)) →
        joinRun leaf (runs.map .leaf ++ rest) = joined.map .leaf ++ rest := by
  obtain ⟨kept, closed, parted, -⟩ := cuts
  cases runs with
  | nil =>
    refine ⟨[leaf], ⟨?_, by simpa using run, .singleton _, by simp⟩, ?_⟩
    · rw [List.flatten_cons, List.flatten_cons, kept]
    · intro rest control
      cases rest with
      | nil => rfl
      | cons s rest =>
        cases s with
        | leaf instrs => exact absurd rfl (control instrs)
        | _ => rfl
  | cons next runs =>
    obtain ⟨own, others⟩ := List.forall_mem_cons.mp closed
    by_cases terminated : isTerminated leaf = true
    · refine ⟨leaf :: next :: runs, ⟨?_, ?_, parted.cons_cons terminated, by simp⟩, ?_⟩
      · rw [List.flatten_cons, kept, List.flatten_cons]
      · exact List.forall_mem_cons.mpr ⟨run, closed⟩
      · intro rest _
        simp [joinRun, terminated]
    · have running := Bool.eq_false_iff.mpr terminated
      refine ⟨(leaf ++ next) :: runs, ⟨?_, ?_, ?_, by simp⟩, ?_⟩
      · rw [List.flatten_cons, List.append_assoc, ← List.flatten_cons, kept, List.flatten_cons]
      · exact List.forall_mem_cons.mpr ⟨isRun_append run running own, others⟩
      · rw [List.isChain_cons] at parted ⊢
        rwa [isTerminated_append running]
      · intro rest _
        simp [joinRun, terminated]

end Cuts

namespace Nested

variable {β : Type} {code : β → Straight}

/-- Statements and what they become when their leaves are cut anew: every branch, loop and function
stays where it is, and what stands between two of them is cut apart from the rest. -/
inductive Groups (code : β → Straight) : List (Nested Straight) → List (Nested β) → Prop where
  | leaves (leaves : List Straight) (blocks : List β) (cuts : Cuts leaves (blocks.map code)) :
      Groups code (leaves.map .leaf) (blocks.map .leaf)
  | ifElse (leaves : List Straight) (blocks : List β) {condition : Code}
      {ifTrue ifFalse rest : List (Nested Straight)} {ifTrue' ifFalse' rest' : List (Nested β)}
      (cuts : Cuts leaves (blocks.map code)) (first : Groups code ifTrue ifTrue')
      (second : Groups code ifFalse ifFalse') (others : Groups code rest rest') :
      Groups code (leaves.map .leaf ++ .ifElse condition ifTrue ifFalse :: rest)
        (blocks.map .leaf ++ .ifElse condition ifTrue' ifFalse' :: rest')
  | loop (leaves : List Straight) (blocks : List β) {condition : Code}
      {body rest : List (Nested Straight)} {body' rest' : List (Nested β)}
      (cuts : Cuts leaves (blocks.map code)) (round : Groups code body body')
      (others : Groups code rest rest') :
      Groups code (leaves.map .leaf ++ .loop condition body :: rest)
        (blocks.map .leaf ++ .loop condition body' :: rest')
  | function (leaves : List Straight) (blocks : List β) {name : Ast.Symbol}
      {parameters : List Ast.Symbol} {body rest : List (Nested Straight)}
      {body' rest' : List (Nested β)} (cuts : Cuts leaves (blocks.map code))
      (inner : Groups code body body') (others : Groups code rest rest') :
      Groups code (leaves.map .leaf ++ .function name parameters body :: rest)
        (blocks.map .leaf ++ .function name parameters body' :: rest')

private theorem Groups.joinRun {stmts runs : List (Nested Straight)} {leaf : Straight}
    (groups : Groups id stmts runs) (run : isRun leaf = true) :
    Groups id (.leaf leaf :: stmts) (joinRun leaf runs) := by
  have step {leaves runs : List Straight} (cuts : Cuts leaves (runs.map id)) :
      ∃ joined : List Straight, Cuts (leaf :: leaves) (joined.map id) ∧
        ∀ rest : List (Nested Straight), (∀ instrs, rest.head? ≠ some (.leaf instrs)) →
          Stack.joinRun leaf (runs.map .leaf ++ rest) = joined.map .leaf ++ rest := by
    simp only [List.map_id] at cuts ⊢
    exact cuts.cons run
  cases groups with
  | leaves leaves runs cuts =>
    obtain ⟨joined, cuts, same⟩ := step cuts
    have whole := same [] (by simp)
    rw [List.append_nil, List.append_nil] at whole
    rw [whole]
    exact .leaves (leaf :: leaves) joined cuts
  | ifElse leaves runs cuts first second others =>
    obtain ⟨joined, cuts, same⟩ := step cuts
    rw [same _ (by simp)]
    exact .ifElse (leaf :: leaves) joined cuts first second others
  | loop leaves runs cuts round others =>
    obtain ⟨joined, cuts, same⟩ := step cuts
    rw [same _ (by simp)]
    exact .loop (leaf :: leaves) joined cuts round others
  | function leaves runs cuts inner others =>
    obtain ⟨joined, cuts, same⟩ := step cuts
    rw [same _ (by simp)]
    exact .function (leaf :: leaves) joined cuts inner others

/-- Joining leaves into runs groups them. -/
theorem joinAllRuns_groups {stmts : List (Nested Straight)}
    (runs : ∀ leaf ∈ allLeaves stmts, isRun leaf = true) : Groups id stmts (joinAllRuns stmts) := by
  induction stmts using inductionAll with
  | nil => exact .leaves [] [] .nil
  | leaf instrs rest ih =>
    obtain ⟨own, others⟩ := List.forall_mem_cons.mp runs
    exact (ih others).joinRun own
  | ifElse condition ifTrue ifFalse rest first second ih =>
    simp only [allLeaves, leaves, List.forall_mem_append] at runs
    obtain ⟨⟨inFirst, inSecond⟩, others⟩ := runs
    exact .ifElse [] [] .nil (first inFirst) (second inSecond) (ih others)
  | loop condition body rest inner ih =>
    simp only [allLeaves, leaves, List.forall_mem_append] at runs
    exact .loop [] [] .nil (inner runs.1) (ih runs.2)
  | function name parameters body rest inner ih =>
    simp only [allLeaves, leaves, List.forall_mem_append] at runs
    exact .function [] [] .nil (inner runs.1) (ih runs.2)

/-- Runs side by side are labelled one after the other, and then the statements behind them. -/
theorem labelAll_leaves (runs : List Straight) (rest : List (Nested Straight)) (l : Labelling) :
    ∃ (blocks : List Block) (m : Labelling), blocks.map Block.instrs = runs ∧
      ((labelAll (runs.map .leaf ++ rest)).run l).1 =
        blocks.map .leaf ++ ((labelAll rest).run m).1 := by
  induction runs generalizing l with
  | nil => exact ⟨[], l, rfl, rfl⟩
  | cons run runs ih =>
    obtain ⟨blocks, m, same, done⟩ := ih l.fresh.2
    refine ⟨⟨l.fresh.1, run⟩ :: blocks, m, congrArg (run :: ·) same, ?_⟩
    change leaf ⟨l.fresh.1, run⟩ :: ((labelAll (runs.map .leaf ++ rest)).run l.fresh.2).1 = _
    rw [done]
    rfl

/-- Labels change nothing about how leaves are grouped. -/
theorem Groups.label {stmts runs : List (Nested Straight)} (groups : Groups id stmts runs)
    (l : Labelling) : Groups Block.instrs stmts ((labelAll runs).run l).1 := by
  have step {leaves runs : List Straight} (cuts : Cuts leaves (runs.map id))
      (rest : List (Nested Straight)) (l : Labelling) :
      ∃ (blocks : List Block) (m : Labelling), Cuts leaves (blocks.map Block.instrs) ∧
        ((labelAll (runs.map .leaf ++ rest)).run l).1 =
          blocks.map .leaf ++ ((labelAll rest).run m).1 := by
    obtain ⟨blocks, m, same, done⟩ := labelAll_leaves runs rest l
    rw [List.map_id, ← same] at cuts
    exact ⟨blocks, m, cuts, done⟩
  induction groups generalizing l with
  | leaves leaves runs cuts =>
    obtain ⟨blocks, m, cuts, done⟩ := step cuts [] l
    change _ = _ ++ [] at done
    rw [List.append_nil, List.append_nil] at done
    rw [done]
    exact .leaves leaves blocks cuts
  | ifElse leaves runs cuts first second others ih₁ ih₂ ih =>
    obtain ⟨blocks, m, cuts, done⟩ := step cuts _ l
    rw [done]
    exact .ifElse leaves blocks cuts (ih₁ m) (ih₂ _) (ih _)
  | loop leaves runs cuts round others ih₁ ih =>
    obtain ⟨blocks, m, cuts, done⟩ := step cuts _ l
    rw [done]
    exact .loop leaves blocks cuts (ih₁ m) (ih _)
  | function leaves runs cuts inner others ih₁ ih =>
    obtain ⟨blocks, m, cuts, done⟩ := step cuts _ l
    rw [done]
    exact .function leaves blocks cuts (ih₁ m) (ih _)

end Nested

end Stack

/-! ### Numbering -/

/-- Labels that are made in order bear the names that the supply had next. -/
theorem Labelling.MakesInOrder.names {l l' : Labelling} {labels : List Label}
    (made : MakesInOrder l l' labels) (counted : Counted l l') :
    labels.map l'.labels.nameOf =
      (List.range' l.supply.next labels.length).map fun n => l.supply.stem ++ toString n := by
  apply List.ext_getElem
  · simp
  intro k inside _
  have known : k < labels.length := by simpa using inside
  have place : labels[k] = ⟨l.size + k⟩ := made.getElem known
  have count := made.size
  rw [List.length_map] at inside
  simp only [List.getElem_map, List.getElem_range', Nat.one_mul, place]
  rw [counted.names _ (by simp) (by simp only; omega)]
  simp

namespace Items

/-- A program in blocks, with the labels and the supply before and after they were made. It has the
globals, functions, branches and loops of the program, and between two of them its instructions in
order, cut into blocks that end only where they have to. The names of its labels are numbered in the
order of the blocks, from the next number of the supply on. -/
structure IsGrouped (program : Items (Nested Straight)) (grouped : Items (Nested Block))
    (l l' : Labelling) : Prop where
  code : Items.Related (fun f g => g.name = f.name ∧ g.parameters = f.parameters ∧
    Nested.Groups Block.instrs f.body g.body) program grouped
  names : grouped.nestedLabels.map l'.labels.nameOf =
    (List.range' l.supply.next grouped.nestedLabels.length).map
      (fun n => l.supply.stem ++ toString n)
  supply : l'.supply = ⟨l.supply.stem, l.supply.next + grouped.nestedLabels.length⟩

/-- Grouping keeps all code in its place, whatever the supply has been used for before. -/
theorem groupBlocks_keeps_code {program : Items (Nested Straight)} (l : Labelling)
    (runs : ∀ f ∈ program.functions, ∀ leaf ∈ Nested.allLeaves f.body, isRun leaf = true) :
    let grouped := (program.groupBlocks.run l).1
    let l' := (program.groupBlocks.run l).2
    program.IsGrouped grouped l l' := by
  intro grouped l'
  have made : l.MakesInOrder l' grouped.nestedLabels := groupBlocks_makesInOrder program l
  have counted : l.Counted l' := groupBlocks_keeps (fun _ => .fresh) program (.refl l)
  refine ⟨(related_groupBlocks program l).imp ?_, made.names counted, ?_⟩
  · rintro f member _ - ⟨m, rfl⟩
    exact ⟨rfl, rfl, (Nested.joinAllRuns_groups (runs f member)).label m⟩
  · have next := counted.next
    rw [made.size, Nat.add_sub_cancel_left] at next
    calc l'.supply = ⟨l'.supply.stem, l'.supply.next⟩ := rfl
      _ = _ := by rw [counted.stem, next]

/-- Leaves in front of a branch and in its arm, an empty arm, code behind a return and a function in a
function, grouped with a supply that has been used before. -/
theorem groupBlocks_keeps_code_dead :
    let x : Ast.Symbol := .stack "x" .integer
    let isOdd : Code := ⟨[.load x], .integer⟩
    let back : Nested Straight := .leaf [.push (.int 0), .ret .integer]
    let other : Nested Straight := .leaf [.push (.int 1), .store x]
    let f : FunDef (Nested Straight) := ⟨.global "f" .integer, [x],
      [.leaf [], other, .ifElse isOdd [other, back, other, other] [],
        .function (.global "g" .integer) [] [back], other, back]⟩
    let program : Items (Nested Straight) := [.global x, .function f]
    let l : Labelling := { supply := ⟨"B", 3⟩ }
    let grouped := (program.groupBlocks.run l).1
    let l' := (program.groupBlocks.run l).2
    (∀ f ∈ program.functions, ∀ leaf ∈ Nested.allLeaves f.body, isRun leaf = true) ∧
      grouped.nestedLabels.map l'.labels.nameOf = ["B3", "B4", "B5", "B6", "B7"] ∧
      program.IsGrouped grouped l l' := by
  intro x isOdd back other f program l grouped l'
  have runs : ∀ f ∈ program.functions, ∀ leaf ∈ Nested.allLeaves f.body, isRun leaf = true := by
    decide
  have names : grouped.nestedLabels.map l'.labels.nameOf = ["B3", "B4", "B5", "B6", "B7"] := by
    decide
  exact ⟨runs, names, groupBlocks_keeps_code l runs⟩

end Items

end Wabbit
