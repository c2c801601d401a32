import Wabbit.Proofs.Names.Blocks
import Wabbit.Proofs.Outline.Statements

/-!
Blocks in outline: their labels and their marks. Generated blocks have the outlines of the blocks
that they are made from, and a block that receives arguments makes room for all of them before it
leads on.
-/

namespace Wabbit

open Ast

/-- A block in outline. -/
structure Sketch where
  label : Label
  marks : List Mark
  deriving DecidableEq, Repr

/-- The labels that a mark may lead to. -/
def Mark.targets : Mark → List Label
  | lead targets => targets
  | _ => []

/-- The labels that a block in outline may lead to. -/
def Sketch.targets (sketch : Sketch) : List Label := sketch.marks.flatMap Mark.targets

def Stack.Block.sketch (block : Stack.Block) : Sketch := ⟨block.label, Stack.marksOf block.instrs⟩

namespace Tac

/-- The marks of using the variable at an address as one of the given kind. -/
def Address.marks (kind : Kind) : Address → List Mark
  | slot name => [.access ⟨name, kind⟩]
  | global _ => []

/-- The marks of an instruction. -/
def Instr.marks : Instr → List Mark
  | alloca name kind => [.room ⟨name, kind⟩]
  | load _ kind address | store kind _ address => address.marks kind
  | jump label => [.lead [label]]
  | branch _ ifTrue ifFalse => [.lead [ifTrue, ifFalse]]
  | _ => []

/-- The marks of some instructions, in their order. -/
def marksOf (instrs : List Instr) : List Mark := instrs.flatMap Instr.marks

@[simp]
theorem marksOf_append (front back : List Instr) :
    marksOf (front ++ back) = marksOf front ++ marksOf back := List.flatMap_append

@[simp]
theorem marksOf_cons (i : Instr) (rest : List Instr) :
    marksOf (i :: rest) = i.marks ++ marksOf rest := List.flatMap_cons

@[simp]
theorem marksOf_nil : marksOf [] = [] := rfl

def Block.sketch (block : Block) : Sketch := ⟨block.label, marksOf block.instrs⟩

/-- The labels that an instruction may lead to. -/
def Instr.targets : Instr → List Label
  | jump label => [label]
  | branch _ ifTrue ifFalse => [ifTrue, ifFalse]
  | _ => []

/-- The labels that a block may lead to. -/
def Block.targets (block : Block) : List Label := block.instrs.flatMap Instr.targets

private theorem Instr.targets_marks (i : Instr) : i.marks.flatMap Mark.targets = i.targets := by
  cases i with
  | load result kind address => cases address <;> rfl
  | store kind value address => cases address <;> rfl
  | _ => simp [marks, targets, Mark.targets]

theorem Block.targets_sketch (block : Block) : block.sketch.targets = block.targets := by
  simp only [Sketch.targets, sketch, marksOf, List.flatMap_assoc, Instr.targets_marks, targets]

private theorem Address.marks_ofSymbol (symbol : Symbol) :
    (Address.ofSymbol symbol).marks symbol.kind = symbol.marks := by
  obtain ⟨text, kind, storage⟩ := symbol
  cases storage <;> rfl

namespace Step

variable {α β : Type}

/-- Whatever a step gives has the given marks. -/
def Leaves (x : Step α) (marks : List Mark) : Prop :=
  ∀ ⦃m a code m'⦄, x m = some (a, code, m') → marksOf code = marks

theorem Leaves.bind {x : Step α} {f : α → Step β} {first second : List Mark} (front : x.Leaves first)
    (back : ∀ a, (f a).Leaves second) : (x >>= f).Leaves (first ++ second) := by
  intro m b code m' done
  obtain ⟨a, code₁, m₁, code₂, own, others, rfl⟩ := bind_eq_some.mp done
  rw [marksOf_append, front own, back a others]

theorem Leaves.pure (a : α) : (pure a : Step α).Leaves [] := by
  intro m b code m' done
  cases done
  rfl

theorem leaves_emit (instr : Instr) : (emit instr).Leaves instr.marks := by
  intro m b code m' done
  cases done
  simp

theorem leaves_fresh : fresh.Leaves [] := by
  intro m b code m' done
  cases done
  rfl

private theorem leaves_push (value : Value) : (push value).Leaves [] := by
  intro m b code m' done
  cases done
  rfl

theorem leaves_pop : pop.Leaves [] := by
  intro m b code m' done
  obtain ⟨rfl, -⟩ := pop_inv done
  rfl

private theorem leaves_popMany (count : Nat) : (popMany count).Leaves [] := by
  intro m b code m' done
  obtain ⟨-, -, rfl, -⟩ := popMany_inv done
  rfl

private theorem leaves_convert (conversion : Conversion) (value : Operand) :
    (convert conversion value).Leaves [] :=
  leaves_fresh.bind fun _ => (leaves_emit _).bind fun _ => .pure _

theorem leaves_materialize (value : Value) (kind : Kind) : (materialize value kind).Leaves [] := by
  unfold materialize
  split
  · exact .pure _
  · exact .pure _
  · exact .pure _
  · exact .pure _
  · exact leaves_convert ..
  · exact leaves_convert ..
  · exact leaves_convert ..
  · exact leaves_convert ..

theorem leaves_popAs (kind : Kind) : (popAs kind).Leaves [] :=
  leaves_pop.bind fun value => leaves_materialize value kind

private theorem leaves_arguments (values : List Value) : (arguments values).Leaves [] := by
  induction values with
  | nil => exact .pure _
  | cons value rest ih =>
    exact (leaves_materialize value value.kind).bind fun _ => ih.bind fun _ => .pure _

private theorem leaves_binary (op : Operator) (kind : Kind) : (binary op kind).Leaves [] :=
  (leaves_popAs kind).bind fun _ => (leaves_popAs kind).bind fun _ =>
    leaves_fresh.bind fun _ => (leaves_emit _).bind fun _ => .pure _

private theorem leaves_condition (value : Value) : (condition value).Leaves [] := by
  cases value with
  | flag flag kind => exact .pure _
  | number operand kind => exact leaves_fresh.bind fun _ => (leaves_emit _).bind fun _ => .pure _

end Step

open Step in
/-- What is generated for an instruction has its marks. -/
theorem leaves_generateInstr (i : Stack.Instr) : (generateInstr i).Leaves i.marks := by
  cases i with
  | push value => cases value <;> exact leaves_push _
  | load symbol =>
    rw [Stack.Instr.marks, ← Address.marks_ofSymbol, ← List.append_nil (Address.marks _ _)]
    exact leaves_fresh.bind fun _ => (leaves_emit _).bind fun _ => leaves_push _
  | store symbol =>
    rw [Stack.Instr.marks, ← Address.marks_ofSymbol]
    exact (leaves_popAs symbol.kind).bind fun _ => leaves_emit _
  | arith op kind => exact (leaves_binary _ kind).bind fun _ => leaves_push _
  | compare op kind => exact (leaves_binary _ kind).bind fun _ => leaves_push _
  | call function count kind =>
    exact (leaves_popMany count).bind fun values => (leaves_arguments values).bind fun _ =>
      leaves_fresh.bind fun _ => (leaves_emit _).bind fun _ => leaves_push _
  | print kind => exact (leaves_popAs kind).bind fun _ => leaves_emit _
  | ret kind => exact (leaves_popAs kind).bind fun _ => leaves_emit _
  | goto label => exact leaves_emit _
  | branch ifTrue ifFalse =>
    exact leaves_pop.bind fun value => (leaves_condition value).bind fun _ => leaves_emit _
  | slot name => exact leaves_emit _

private theorem marksOf_generateInstrs {instrs : List Stack.Instr} {m m' : Machine} {code : List Instr}
    (done : generateInstrs m instrs = .ok (code, m')) : marksOf code = Stack.marksOf instrs := by
  induction instrs generalizing m code with
  | nil =>
    cases done
    rfl
  | cons i rest ih =>
    obtain ⟨front, m₁, back, first, recursive, rfl⟩ := generateInstrs_cons done
    rw [marksOf_append, leaves_generateInstr i first, ih recursive, Stack.marksOf_cons]

/-- Generated blocks have the outlines of the blocks that they are made from. -/
theorem sketches_generateBlocks {blocks : List Stack.Block} {blocks' : List Block} {n n' : Nat}
    (done : (generateBlocks blocks).run n = .ok (blocks', n')) :
    blocks'.map Block.sketch = blocks.map Stack.Block.sketch := by
  refine map_generateBlocks (fun own => ?_) done
  obtain ⟨label, m, -, generated⟩ := generateBlock_inv own
  rw [Block.sketch, label, marksOf_generateInstrs generated, Stack.Block.sketch]

/-- The marks of copying arguments to the stack. -/
def receives (parameters : List Symbol) : List Mark :=
  parameters.flatMap fun parameter => [.room parameter.name, .access parameter.name]

private theorem marksOf_spill (parameters : List Symbol) :
    marksOf (parameters.flatMap spill) = receives parameters := by
  induction parameters with
  | nil => rfl
  | cons parameter rest ih =>
    rw [List.flatMap_cons, marksOf_append, ih]
    rfl

/-- How blocks in outline receive arguments: a block with a label of its own, in front of the others,
makes room for them and leads on. -/
def Receives (parameters : List Symbol) (blocks blocks' : List Sketch) : Prop :=
  (parameters = [] ∧ blocks' = blocks) ∨
    ∃ (entry : Label) (first : Sketch) (rest : List Sketch), parameters ≠ [] ∧
      blocks = first :: rest ∧ (∀ block ∈ blocks, block.label ≠ entry) ∧
      blocks' = ⟨entry, receives parameters ++ [.lead [first.label]]⟩ :: blocks

theorem withEntryBlock_receives {f : FunDef Block} {labels : Labels} (some : f.body ≠ [])
    (bounded : ∀ block ∈ f.body, block.label.id < labels.names.size) :
    Receives f.parameters (f.body.map Block.sketch)
      ((f.withEntryBlock.run labels).1.body.map Block.sketch) := by
  obtain ⟨name, parameters, body⟩ := f
  cases parameters with
  | nil => exact .inl ⟨rfl, rfl⟩
  | cons parameter others =>
    cases body with
    | nil => exact absurd rfl some
    | cons first rest =>
      refine .inr ⟨⟨labels.names.size⟩, first.sketch, rest.map Block.sketch, nofun, rfl, ?_, ?_⟩
      · refine List.forall_mem_map.mpr fun block inside same => ?_
        have earlier := bounded block inside
        exact Nat.lt_irrefl _ ((congrArg Label.id same) ▸ earlier)
      · rw [← marksOf_spill]
        exact congrArg (Sketch.mk _ · :: _) (marksOf_append _ [.jump first.label])

end Tac

/-- Every function gets its block in a state where all labels made before keep their identity. -/
theorem Items.related_withEntryBlocks (program : Items Tac.Block) (labels : Labels) :
    Items.Related (fun f g => ∃ labels', labels.Extends labels' ∧
      g = (f.withEntryBlock.run labels').1) program (program.withEntryBlocks.run labels).1 := by
  induction program generalizing labels with
  | nil => exact .nil
  | cons item rest ih =>
    cases item with
    | global symbol => exact .cons (.global symbol) (ih labels)
    | function f =>
      refine .cons (.function ⟨labels, .refl labels, rfl⟩) ((ih _).imp ?_)
      rintro g - h - ⟨labels', larger, same⟩
      exact ⟨labels', (Tac.withEntryBlock_entered f labels).1.trans larger, same⟩

end Wabbit
