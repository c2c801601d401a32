import Mathlib.Data.Fintype.EquivFin
import Wabbit.Proofs.Compilation
import Wabbit.Proofs.Flow.Graph
import Wabbit.Proofs.Lowering.Progress
import Wabbit.Proofs.Outline.Blocks

/-!
The way of a function through the compiler, from resolved statements to blocks that receive
arguments.
-/

namespace Wabbit

open Ast Stack

theorem Label.exists_unused (labels : List Label) : ∃ label, label ∉ labels := by
  have : Infinite Label := .of_injective Label.mk fun _ _ => Label.mk.inj
  obtain ⟨label, unused⟩ := Infinite.exists_notMem_finset labels.toFinset
  exact ⟨label, fun member => unused (List.mem_toFinset.mpr member)⟩

private theorem Stack.Instr.targets_marks (i : Instr) : i.marks.flatMap Mark.targets = i.targets := by
  have none (symbol : Symbol) : symbol.marks.flatMap Mark.targets = [] := by
    refine List.flatMap_eq_nil_iff.mpr fun mark member => ?_
    rw [Symbol.eq_access_of_mem_marks member]
    rfl
  cases i <;> simp [marks, targets, Mark.targets, none]

theorem Stack.Block.targets_sketch (block : Block) : block.sketch.targets = block.targets := by
  simp only [Sketch.targets, sketch, marksOf, List.flatMap_assoc, Instr.targets_marks, targets]

/-- What a function becomes on its way from resolved statements to compiled blocks. -/
structure FunDef.Passage (f : FunDef (Stmt Symbol False True)) (g : FunDef Tac.Block) where
  plain : List (Stmt Symbol False False)
  straight : List (Nested Straight)
  grouped : List (Nested Block)
  linked : List Block
  labelling : Labelling
  before : Labelling
  behind : Labelling
  subtracts : Stmt.subtractAll f.ensureReturn.body = .ok plain
  straightens : Nested.straightenAll (Stmt.lowerAll plain) = .ok straight
  groups : grouped = ((Nested.labelAll (Nested.joinAllRuns straight)).run labelling).1
  isStraight : Flow.AllStraight grouped
  links : (Flow.linkFunction ⟨f.name, f.parameters, grouped⟩).run before =
    .ok (⟨f.name, f.parameters, linked⟩, behind)
  distinct : (linked.map Block.label).Nodup
  receives : Tac.Receives f.parameters (linked.map Block.sketch) (g.body.map Tac.Block.sketch)

namespace FunDef.Passage

variable {f : FunDef (Stmt Symbol False True)} {g : FunDef Tac.Block} (passage : f.Passage g)
include passage

/-- The outlines of the statements are kept until they are joined into runs. -/
theorem outlines : Nested.outlineAll Block.instrs passage.grouped =
    Nested.outlineAll id (Nested.joinAllRuns passage.straight) ∧
      Nested.outlineAll id passage.straight = Stmt.outlineAll f.ensureReturn.body := by
  rw [passage.groups, Nested.outlineAll_labelAll]
  exact ⟨rfl, Stmt.outlineAll_lower passage.subtracts passage.straightens⟩

end FunDef.Passage

private theorem FunDef.ensureReturn_header (f : FunDef (Stmt Symbol False True)) :
    f.ensureReturn.name = f.name ∧ f.ensureReturn.parameters = f.parameters := by
  unfold ensureReturn
  split <;> exact ⟨rfl, rfl⟩

/-- Sound statements are lowered to straight code. -/
theorem Ast.Stmt.isStraight_lower {stmts : List (Stmt Symbol False True)}
    {plain : List (Stmt Symbol False False)} {straight : List (Nested Straight)}
    (sound : allSound .nested stmts = true) (subtracts : subtractAll stmts = .ok plain)
    (straightens : Nested.straightenAll (lowerAll plain) = .ok straight) (name : Symbol)
    (parameters : List Symbol) :
    (⟨name, parameters, straight⟩ : FunDef (Nested Straight)).isStraight = true := by
  obtain ⟨plain', straight', same, same', lowers⟩ := lowerAll_succeeds sound
  cases same.symm.trans subtracts
  cases same'.symm.trans straightens
  simp only [FunDef.isStraight, Bool.and_eq_true, List.all_eq_true]
  constructor
  · intro leaf inside
    exact isStraight_of_isLeafCode (allLeaves_lowers lowers leaf inside)
  · intro condition inside
    exact (Bool.and_eq_true_iff.mp (allConditions_lowers lowers condition inside)).1

/-- The steps by which a function of a resolved program becomes one that code is generated for. -/
structure FunDef.Steps (f : FunDef (Stmt Symbol False True)) (g : FunDef Tac.Block) where
  plain : List (Stmt Symbol False False)
  straight : List (Nested Straight)
  labelling : Labelling
  before : Labelling
  behind : Labelling
  blocks : List Block
  first : Nat
  last : Nat
  subtracts : Stmt.subtractAll f.ensureReturn.body = .ok plain
  straightens : Nested.straightenAll (Stmt.lowerAll plain) = .ok straight
  links : (Flow.linkFunction ⟨f.name, f.parameters,
    ((Nested.labelAll (Nested.joinAllRuns straight)).run labelling).1⟩).run before =
      .ok (⟨f.name, f.parameters, blocks⟩, behind)
  name : g.name = f.name
  parameters : g.parameters = f.parameters
  generates : (Tac.generateBlocks blocks).run first = .ok (g.body, last)

namespace FunDef.Steps

variable {f : FunDef (Stmt Symbol False True)} {g : FunDef Tac.Block} (steps : f.Steps g)
include steps

private theorem sketches : g.body.map Tac.Block.sketch = steps.blocks.map Block.sketch :=
  Tac.sketches_generateBlocks steps.generates

private theorem body_ne_nil : g.body ≠ [] := by
  intro none
  obtain ⟨front, final, out, -, -, -, same⟩ := Flow.linkFunction_inv steps.links
  have blocks : steps.blocks = out.blocks ++ [final] := congrArg FunDef.body same
  have sketches := steps.sketches
  simp [none, blocks] at sketches

/-- Code is generated for no other blocks than those that were linked. -/
private theorem label_mem {block : Tac.Block} (here : block ∈ g.body) :
    block.label ∈ steps.blocks.map Block.label := by
  have own : block.label ∈ (g.body.map Tac.Block.sketch).map Sketch.label :=
    List.mem_map_of_mem (List.mem_map_of_mem here)
  rw [steps.sketches, List.map_map] at own
  exact own

end FunDef.Steps

/-- The functions of a compiled program have been made one by one, up to the entry block, from those of
the resolved program. -/
theorem compile_steps {options : Options} {script : Parsed} {compiled : Compiled}
    (done : (compile options script).result = .ok compiled) :
    ∃ folded resolved, ∃ straight : Items (Nested Straight), ∃ linked labelling,
      script.fold = .ok folded ∧ folded.split.resolve.result = .ok resolved ∧
      (∀ f ∈ (Items.ofScript resolved).functions, Stmt.allSound .nested f.ensureReturn.body = true) ∧
      (straight.groupBlocks.run {}).1.link.run (straight.groupBlocks.run {}).2 =
        .ok (linked, labelling) ∧
      Items.Related (fun f g => ∃ h labels, ∃ steps : f.Steps h,
        ⟨f.name, f.parameters, steps.blocks⟩ ∈ linked.functions ∧
          (linked.relabel labelling.labels).Extends labels ∧ g = (h.withEntryBlock.run labels).1)
        (Items.ofScript resolved) compiled.program := by
  obtain ⟨folded, resolved, plain, straight, linked, labelling, generated, fold, resolve, subtract,
    straighten, link, generate, last⟩ := compile_inv done
  obtain ⟨⟨_, scope⟩, own, same⟩ := Success.result_bind_eq_ok.mp resolve
  cases same
  have sound := Items.ofScript_sound (Stmt.resolveAll_sound own)
  have program : compiled.program =
      (generated.withEntryBlocks.run (linked.relabel labelling.labels)).1 := congrArg Prod.fst last
  rw [program]
  refine ⟨folded, _, straight, linked, labelling, fold, resolve,
    fun f member => (Items.ensureReturn_sound (sound f member)).1, link, ?_⟩
  have lowered := ((Items.related_mapFunctions FunDef.ensureReturn _).trans
    (Items.related_mapFunctionsM_ok subtract)).trans
      ((Items.related_mapFunctions _ _).trans (Items.related_mapFunctionsM_ok straighten))
  have blocks := (Items.related_groupBlocks straight {}).trans
    ((Items.related_mapFunctionsM link).imp fun _ _ _ inside own => And.intro inside own)
  have final := (Items.related_generate generate).trans
    (Items.related_withEntryBlocks generated (linked.relabel labelling.labels))
  refine ((lowered.trans blocks).trans final).imp ?_
  rintro f - g - ⟨h, ⟨s, ⟨p, ⟨_, rfl, subtracts⟩, _, rfl, straightens⟩, t, ⟨k, rfl⟩, inside, l, l',
    links⟩, u, ⟨name, parameters, n, n', generates⟩, labels, larger, rfl⟩
  obtain ⟨body, subtracted, rest⟩ := Success.bind_eq_ok.mp subtracts
  cases rest
  obtain ⟨body', straightened, rest⟩ := Success.bind_eq_ok.mp straightens
  cases rest
  obtain ⟨header, header'⟩ := f.ensureReturn_header
  simp only [FunDef.withBody, header, header'] at links
  obtain ⟨front, final, out, -, -, -, rfl⟩ := Flow.linkFunction_inv links
  exact ⟨u, labels, ⟨body, body', k, l, l', _, n, n', subtracted, straightened, links, name,
    parameters, generates⟩, inside, larger, rfl⟩

/-- Every function of a compiled program has come from one of the resolved program. -/
theorem compile_passage {options : Options} {script : Parsed} {compiled : Compiled}
    (done : (compile options script).result = .ok compiled) :
    ∃ folded resolved, script.fold = .ok folded ∧ folded.split.resolve.result = .ok resolved ∧
      Items.Related (fun f g => Nonempty (f.Passage g)) (Items.ofScript resolved)
        compiled.program := by
  obtain ⟨folded, resolved, _, linked, labelling, fold, resolve, sound, link, related⟩ :=
    compile_steps done
  have made := Items.link_groupBlocks_makes link
  have numbered := Items.relabel_isNumbered link
  refine ⟨folded, resolved, fold, resolve, related.imp ?_⟩
  rintro f member _ - ⟨h, labels, steps, inside, larger, rfl⟩
  have straight := Stmt.isStraight_lower (sound f member) steps.subtracts steps.straightens f.name
    f.parameters
  have distinct := (List.nodup_flatMap.mp made.nodup).1 _ inside
  refine ⟨⟨steps.plain, steps.straight, _, steps.blocks, steps.labelling, steps.before, steps.behind,
    steps.subtracts, steps.straightens, rfl, Items.labelled_allStraight straight steps.labelling,
    steps.links, distinct, ?_⟩⟩
  have bounded : ∀ block ∈ h.body, block.label.id < labels.names.size := fun block here =>
    Nat.lt_of_lt_of_le (numbered.bounded _ inside _ (steps.label_mem here)) larger.grows
  have received := Tac.withEntryBlock_receives steps.body_ne_nil bounded
  rw [steps.sketches, steps.parameters] at received
  exact received

/-- A source text of which something is known once it is compiled can be compiled. -/
theorem exists_compiled {α : Type} {source : String} {view : Parsed → Compiled → α} {value : α}
    (run : ((frontEnd source).toOption.bind fun script =>
      (compile {} script).result.toOption.map (view script)) = some value) :
    ∃ script compiled, frontEnd source = .ok script ∧ (compile {} script).result = .ok compiled ∧
      view script compiled = value := by
  obtain ⟨script, accepted, chain⟩ := Option.bind_eq_some_iff.mp run
  obtain ⟨compiled, done, same⟩ := Option.map_eq_some_iff.mp chain
  exact ⟨script, compiled, Success.toOption_eq_some.mp accepted, Success.toOption_eq_some.mp done,
    same⟩

end Wabbit
