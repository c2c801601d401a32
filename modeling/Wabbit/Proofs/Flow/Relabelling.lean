import Wabbit.Proofs.Flow.Graph
import Wabbit.Proofs.Names.Blocks
import Wabbit.Stack.Printer

/-!
Relabelling a linked program. Main statement: whatever the labels of a program were called, its blocks
are called `L0`, `L1`, … afterwards, the name of a label to jump to is the name of the block that bears
this label and of no other block, and nothing else changes.
-/

namespace Wabbit

open Stack

namespace Labels

private theorem rename_nameOf (labels : Labels) (label : Label) :
    labels.rename label (labels.nameOf label) = labels := by
  have names : labels.names.setIfInBounds label.id (labels.nameOf label) = labels.names := by
    refine Array.ext (by simp) fun i _ bound => ?_
    rw [Array.getElem_setIfInBounds]
    split
    · rename_i own
      simp [nameOf, own, bound]
    · rfl
  exact congrArg Labels.mk names

/-- Labels that are numbered already are left alone. -/
theorem number_eq_self {labels : Labels} {numbered : List Label} {n : Nat}
    (names : numbered.map labels.nameOf = (List.range' n numbered.length).map blockName) :
    labels.number n numbered = labels := by
  induction numbered generalizing n with
  | nil => rfl
  | cons first rest ih =>
    rw [List.length_cons, List.range'_succ, List.map_cons, List.map_cons, List.cons.injEq] at names
    rw [number, ← names.1, rename_nameOf]
    exact ih names.2

end Labels

namespace Items

/-- The blocks of a linked program, function by function. -/
def blocks (program : Items Block) : List Block := program.functions.flatMap FunDef.body

theorem map_label_blocks (program : Items Block) :
    program.blocks.map Block.label = program.blockLabels := List.map_flatMap

theorem map_nameOf_blocks (program : Items Block) (labels : Labels) :
    program.blocks.map (fun block => labels.nameOf block.label) =
      program.blockLabels.map labels.nameOf := by
  rw [← map_label_blocks, List.map_map]
  rfl

theorem map_nameOf_relabel {program : Items Block} {labels : Labels}
    (distinct : program.blockLabels.Nodup)
    (made : ∀ label ∈ program.blockLabels, label.id < labels.names.size) :
    program.blockLabels.map (program.relabel labels).nameOf =
      (List.range' 0 program.blockLabels.length).map blockName := by
  rw [relabel_eq_number]
  exact Labels.map_nameOf_number made distinct 0

/-- After relabelling, a block is the only one of its name. -/
theorem filter_nameOf_relabel {program : Items Block} {labels : Labels}
    (distinct : program.blockLabels.Nodup)
    (made : ∀ label ∈ program.blockLabels, label.id < labels.names.size) {block : Block}
    (member : block ∈ program.blocks) :
    let labels' := program.relabel labels
    program.blocks.filter (fun b => labels'.nameOf b.label = labels'.nameOf block.label) =
      [block] := by
  intro labels'
  have unique : (program.blocks.map fun block => labels'.nameOf block.label).Nodup := by
    rw [map_nameOf_blocks, map_nameOf_relabel distinct made]
    exact List.Nodup.map blockName_injective List.nodup_range'
  exact filter_key_eq unique member

/-- What relabelling makes of the names of labels. The blocks of the program are called `L0`, `L1`, …
in the order of the text. The name of a label to jump to is found at the block that bears the label and
nowhere else. There are no more labels than before, others than those of blocks keep their names, and
instructions without a label keep their text. -/
structure IsRelabelled (program : Items Block) (labels labels' : Labels) : Prop where
  numbered : program.blocks.map (fun block => labels'.nameOf block.label) =
    (List.range program.blocks.length).map (fun n => "L" ++ toString n)
  found : ∀ block ∈ program.blocks, ∀ target ∈ block.targets, ∃ other, other.label = target ∧
    program.blocks.filter (fun b => labels'.nameOf b.label = labels'.nameOf target) = [other]
  size : labels'.names.size = labels.names.size
  others : ∀ label ∉ program.blockLabels, labels'.nameOf label = labels.nameOf label
  text : ∀ i : Instr, i.targets = [] → i.text labels' = i.text labels

/-- Whatever the blocks of a program were called before, relabelling numbers them, jumps lead to the
same blocks, and nothing else changes. Relabelling once more changes nothing at all. -/
theorem relabelled_keeps_graph {program : Items Block} {labels : Labels}
    (distinct : program.blockLabels.Nodup)
    (made : ∀ label ∈ program.blockLabels, label.id < labels.names.size)
    (jumps : ∀ block ∈ program.blocks, block.targets ⊆ program.blockLabels) :
    let labels' := program.relabel labels
    program.IsRelabelled labels labels' ∧ program.relabel labels' = labels' := by
  intro labels'
  have names := map_nameOf_relabel distinct made
  have length : program.blocks.length = program.blockLabels.length := by
    rw [← map_label_blocks, List.length_map]
  constructor
  · constructor
    case numbered =>
      rw [map_nameOf_blocks, names, length, List.range_eq_range']
      rfl
    case found =>
      intro block member target inside
      have borne := jumps block member inside
      rw [← map_label_blocks] at borne
      obtain ⟨other, present, rfl⟩ := List.mem_map.mp borne
      exact ⟨other, rfl, filter_nameOf_relabel distinct made present⟩
    case size =>
      unfold labels'
      rw [relabel_eq_number, Labels.size_number]
    case others =>
      intro label outside
      unfold labels'
      rw [relabel_eq_number]
      exact Labels.nameOf_number_other made outside 0
    case text =>
      intro i nowhere
      cases i with
      | goto target => cases nowhere
      | branch ifTrue ifFalse => cases nowhere
      | _ => rfl
  · rw [relabel_eq_number]
    exact Labels.number_eq_self names

/-- Two functions whose blocks share a name or bear the one that another block is going to get, and a
label that no block bears. -/
theorem relabelled_keeps_graph_clashing :
    let f : FunDef Block := ⟨.global "f" .integer, [],
      [⟨⟨2⟩, [.push (.int 1), .branch ⟨1⟩ ⟨2⟩]⟩, ⟨⟨1⟩, [.goto ⟨2⟩]⟩]⟩
    let g : FunDef Block := ⟨.global "g" .integer, [], [⟨⟨0⟩, [.push (.int 0), .ret .integer]⟩]⟩
    let program : Items Block := [.function f, .global (.global "x" .integer), .function g]
    let labels : Labels := ⟨#["L1", "L1", "L2", "L0"]⟩
    let labels' := program.relabel labels
    program.blockLabels.Nodup ∧ (∀ label ∈ program.blockLabels, label.id < labels.names.size) ∧
      (∀ block ∈ program.blocks, block.targets ⊆ program.blockLabels) ∧
      labels' = ⟨#["L2", "L1", "L0", "L0"]⟩ ∧ program.IsRelabelled labels labels' ∧
      program.relabel labels' = labels' := by
  intro f g program labels labels'
  have distinct : program.blockLabels.Nodup := by decide
  have made : ∀ label ∈ program.blockLabels, label.id < labels.names.size := by decide
  have jumps : ∀ block ∈ program.blocks, block.targets ⊆ program.blockLabels := by decide
  have renamed : labels' = ⟨#["L2", "L1", "L0", "L0"]⟩ := by decide
  exact ⟨distinct, made, jumps, renamed, relabelled_keeps_graph distinct made jumps⟩

end Items

end Wabbit
