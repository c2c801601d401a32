import Wabbit.Proofs.Compilation
import Wabbit.Proofs.Names.Blocks

/-!
Compiled functions define no name twice. The blocks, variables, parameters and registers of a
function share one namespace; four different steps of the compiler choose their names.
-/

namespace Wabbit

open Ast

/-- All names that a function defines: those of its blocks, of its variables, of its parameters and
of the registers that it assigns. -/
def FunDef.localNames (labels : Labels) (f : FunDef Tac.Block) : List String :=
  f.body.map (fun block => labels.nameOf block.label) ++
    (f.body.flatMap Tac.Block.instrs).filterMap Tac.Instr.alloca? ++
    (f.parameters.map Symbol.text ++
      ((f.body.flatMap Tac.Block.instrs).filterMap Tac.Instr.result?).map Register.name)

private theorem isUndotted_of_isBlockName {name : String} (block : isBlockName name = true) :
    isUndotted name = true := by
  unfold isBlockName at block
  rcases Bool.or_eq_true_iff.mp block with entry | numbered
  · rw [eq_of_beq entry]
    decide
  · split at numbered
    · rename_i digits parts
      simp [isUndotted, parts]
    · cases numbered

/-- Blocks, variables and what has a name with a dot in front do not share names. -/
theorem nodup_names {blocks slots dotted : List String} (first : blocks.Nodup)
    (areBlocks : ∀ name ∈ blocks, isBlockName name = true) (second : slots.Nodup)
    (areSlots : ∀ name ∈ slots, IsSlot name) (third : dotted.Nodup)
    (areDotted : ∀ name ∈ dotted, isUndotted name = false) :
    (blocks ++ slots ++ dotted).Nodup := by
  refine List.nodup_append'.mpr ⟨List.nodup_append'.mpr ⟨first, second, ?_⟩, third, ?_⟩
  · intro name isBlock isSlot
    have := areBlocks name isBlock
    simp [(areSlots name isSlot).1] at this
  · intro name member isDotted
    have undotted : isUndotted name = true := by
      rcases List.mem_append.mp member with isBlock | isSlot
      · exact isUndotted_of_isBlockName (areBlocks name isBlock)
      · exact (areSlots name isSlot).2
    simp [areDotted name isDotted] at undotted

namespace Tac

theorem argument_injective : Function.Injective fun name => (Register.argument name).name :=
  fun _ _ same => (String.append_right_inj _).mp same

private theorem numbered_injective : Function.Injective fun n => (Register.numbered n).name :=
  fun _ _ same => toString_injective ((String.append_right_inj _).mp same)

private theorem argument_ne_numbered (name : String) (n : Nat) :
    (Register.argument name).name ≠ (Register.numbered n).name := by
  intro same
  have second := congrArg (fun name => name.toList[1]?) same
  simp [Register.name] at second

/-- Arguments and numbered registers have different names, all of them with a dot in front. -/
theorem nodup_registers {parameters : List String} (distinct : parameters.Nodup) (n count : Nat) :
    (parameters.map (fun name => (Register.argument name).name) ++
        ((List.range' n count).map Register.numbered).map Register.name).Nodup ∧
      ∀ name ∈ parameters.map (fun name => (Register.argument name).name) ++
        ((List.range' n count).map Register.numbered).map Register.name, isUndotted name = false := by
  rw [List.map_map]
  constructor
  · refine List.nodup_append'.mpr ⟨distinct.map argument_injective,
      List.Nodup.map numbered_injective List.nodup_range', ?_⟩
    intro name isArgument isNumbered
    obtain ⟨parameter, -, rfl⟩ := List.mem_map.mp isArgument
    obtain ⟨k, -, same⟩ := List.mem_map.mp isNumbered
    exact argument_ne_numbered parameter k same.symm
  · intro name member
    rcases List.mem_append.mp member with isArgument | isNumbered
    · obtain ⟨parameter, -, rfl⟩ := List.mem_map.mp isArgument
      simp [isUndotted, Register.name]
    · obtain ⟨k, -, rfl⟩ := List.mem_map.mp isNumbered
      simp [isUndotted, Register.name]

/-- What is known of the names in a generated function before its arguments are received. -/
structure Separate (labels : Labels) (f : FunDef Block) : Prop where
  bounded : ∀ block ∈ f.body, block.label.id < labels.names.size
  numbered : ∀ block ∈ f.body, ∃ n, labels.nameOf block.label = blockName n
  blocks : (f.body.map fun block => labels.nameOf block.label).Nodup
  slots : ∃ taken, Takes [] taken
    (f.parameters.map Symbol.text ++ (f.body.flatMap Block.instrs).filterMap Instr.alloca?)
  results : ∃ n count, (f.body.flatMap Block.instrs).filterMap Instr.result? =
    (List.range' n count).map Register.numbered

private theorem allocas_entry (parameters : List Symbol) (first : Label) :
    (parameters.flatMap spill ++ [Instr.jump first]).filterMap Instr.alloca? =
      parameters.map Symbol.text := by
  induction parameters with
  | nil => rfl
  | cons parameter rest ih => exact congrArg (parameter.text :: ·) ih

private theorem results_entry (parameters : List Symbol) (first : Label) :
    (parameters.flatMap spill ++ [Instr.jump first]).filterMap Instr.result? = [] := by
  induction parameters with
  | nil => rfl
  | cons parameter rest ih => exact ih

namespace Separate

variable {labels labels' : Labels} {f : FunDef Block}

private theorem extend (separate : Separate labels f) (larger : labels.Extends labels') :
    Separate labels' f := by
  have names : ∀ block ∈ f.body, labels'.nameOf block.label = labels.nameOf block.label :=
    fun block member => larger.keeps block.label (separate.bounded block member)
  refine ⟨?_, ?_, ?_, separate.slots, separate.results⟩
  · exact fun block member => Nat.lt_of_lt_of_le (separate.bounded block member) larger.grows
  · intro block member
    rw [names block member]
    exact separate.numbered block member
  · rw [List.map_congr_left names]
    exact separate.blocks

/-- The names of the blocks, also together with that of a block in front of them. -/
theorem areBlocks (separate : Separate labels f) :
    (Label.entryName :: f.body.map fun block => labels.nameOf block.label).Nodup ∧
      ∀ name ∈ Label.entryName :: f.body.map fun block => labels.nameOf block.label,
        isBlockName name = true := by
  have named : ∀ name ∈ f.body.map fun block => labels.nameOf block.label,
      ∃ n, name = blockName n := by
    intro name member
    obtain ⟨block, inside, rfl⟩ := List.mem_map.mp member
    exact separate.numbered block inside
  constructor
  · refine List.nodup_cons.mpr ⟨?_, separate.blocks⟩
    intro member
    obtain ⟨n, same⟩ := named _ member
    exact blockName_ne_entryName n same.symm
  · intro name member
    rcases List.mem_cons.mp member with rfl | member
    · decide
    · obtain ⟨n, rfl⟩ := named name member
      exact isBlockName_numbered n

/-- However the arguments of a function are received, it defines no name twice. -/
theorem nodup_localNames {g : FunDef Block} (separate : Separate labels f)
    (entered : Entered labels f g) : (g.localNames labels).Nodup := by
  obtain ⟨distinct, areBlocks⟩ := separate.areBlocks
  obtain ⟨taken, takes⟩ := separate.slots
  obtain ⟨n, count, results⟩ := separate.results
  rcases entered with ⟨rfl, none | empty⟩ | ⟨entry, first, -, named, rfl⟩
  · rw [none] at takes
    have registers := nodup_registers List.nodup_nil n count
    simp only [FunDef.localNames, results, none]
    exact nodup_names (List.nodup_cons.mp distinct).2 (List.forall_mem_cons.mp areBlocks).2
      takes.nodup takes.slots registers.1 registers.2
  · rw [empty] at takes
    simpa [FunDef.localNames, empty] using takes.nodup
  · have parameters := (List.nodup_append'.mp takes.nodup).1
    have registers := nodup_registers parameters n count
    have all := nodup_names distinct areBlocks takes.nodup takes.slots registers.1 registers.2
    have arguments : (f.parameters.map incoming).map Symbol.text =
        (f.parameters.map Symbol.text).map fun name => (Register.argument name).name := by
      simp only [List.map_map]
      rfl
    simp only [FunDef.localNames, List.map_cons, List.flatMap_cons]
    rw [List.filterMap_append, allocas_entry, List.filterMap_append, results_entry, results, named,
      arguments]
    exact all

end Separate

end Tac

namespace Items

/-- Generated functions keep the names of their blocks, variables and parameters apart. -/
theorem generate_separate {linked : Items Stack.Block} {generated : Items Tac.Block} {labels : Labels}
    (numbered : linked.IsNumbered labels)
    (slots : ∀ f ∈ linked.functions, ∃ taken,
      Takes [] taken (f.parameters.map Symbol.text ++ Stack.blockSlots f.body))
    (done : linked.generate = .ok generated) :
    ∀ g ∈ generated.functions, Tac.Separate labels g := by
  intro g inside
  obtain ⟨f, member, -, parameters, n, n', own⟩ := (related_generate done).exists_left inside
  have emits := Tac.generateBlocks_emits own
  have same := Tac.generateBlocks_labels own
  have ofBlock {block : Tac.Block} (inside : block ∈ g.body) :
      block.label ∈ f.body.map Stack.Block.label := by
    rw [← same]
    exact List.mem_map_of_mem inside
  refine ⟨?_, ?_, ?_, ?_, n, n' - n, emits.results⟩
  · exact fun block inside => numbered.bounded f member _ (ofBlock inside)
  · exact fun block inside => numbered.named f member _ (ofBlock inside)
  · have distinct := numbered.distinct f member
    rw [← same, List.map_map] at distinct
    exact distinct
  · rw [parameters, emits.allocas]
    exact slots f member

/-- Linked functions have the parameters and variables of the resolved program, under the same
names. -/
theorem link_slots {resolved : Items (Stmt Symbol False True)}
    {plain : Items (Stmt Symbol False False)} {straight : Items (Stack.Nested Stack.Straight)}
    {linked : Items Stack.Block} {l l' : Labelling}
    (subtract : resolved.ensureReturns.eliminateNegation = .ok plain)
    (straighten : plain.lowerExpressions.lowerStatements = .ok straight)
    (link : (straight.groupBlocks.run l).1.link.run (straight.groupBlocks.run l).2 =
      .ok (linked, l')) :
    Items.Related (FunDef.SameSlots Stmt.allSlots Stack.blockSlots) resolved linked := by
  have returns := (ensureReturns_sameSlots resolved).sameSlots (eliminateNegation_sameSlots subtract)
  have lowered := (lowerExpressions_sameSlots plain).sameSlots (lowerStatements_sameSlots straighten)
  have blocks := (groupBlocks_sameSlots straight l).sameSlots (link_sameSlots link)
  exact (returns.sameSlots lowered).sameSlots blocks

end Items

/-- No function of a compiled program defines a name twice, whatever names the source text uses. -/
theorem compiled_localNames_nodup {source : String} {script : Parsed} {options : Options}
    {compiled : Compiled} (accepted : frontEnd source = .ok script)
    (done : (compile options script).result = .ok compiled) :
    ∀ f ∈ compiled.program.functions, (f.localNames compiled.labels).Nodup := by
  obtain ⟨folded, resolved, plain, straight, linked, labelling, generated, fold, resolve, subtract,
    straighten, link, generate, last⟩ := compile_inv done
  have undotted : ∀ name ∈ Stmt.allDeclared folded.split, isUndotted name = true := by
    rw [declared_split_fold fold]
    exact frontEnd_declared accepted
  have slots : ∀ f ∈ linked.functions, ∃ taken,
      Takes [] taken (f.parameters.map Symbol.text ++ Stack.blockSlots f.body) := by
    intro f member
    obtain ⟨g, inside, same⟩ := (Items.link_slots subtract straighten link).exists_left member
    rw [same.parameters, same.slots]
    exact Items.ofScript_separate resolve undotted g inside
  have separate := Items.generate_separate (Items.relabel_isNumbered link) slots generate
  obtain ⟨larger, entered⟩ := generated.withEntryBlocks_entered (linked.relabel labelling.labels)
  rw [← last] at larger entered
  intro g member
  obtain ⟨f, inside, receives⟩ := entered.exists_left member
  exact ((separate f inside).extend larger).nodup_localNames receives

/-- Parameters that share a name, and variables in two branches that share the name of a block. -/
theorem compiled_localNames_nodup_shared :
    let source := "func f(x int, x int) int \x7b if x < 1 \x7b var L0 = x; \x7d" ++
      " else \x7b var L0 = 2; \x7d return x; \x7d"
    ∃ script compiled, frontEnd source = .ok script ∧ (compile {} script).result = .ok compiled ∧
      (compiled.program.functions.map fun f => f.localNames compiled.labels) =
        [["entry", "L0", "L1", "L2", "L3", "x", "x.1", "L0.1", "L0.2", ".arg_x", ".arg_x.1", ".r0",
          ".r1", ".r2", ".r3"], ["L4"]] ∧
      ∀ f ∈ compiled.program.functions, (f.localNames compiled.labels).Nodup := by
  intro source
  have names : ((frontEnd source).toOption.bind fun script =>
      (compile {} script).result.toOption).map (fun compiled =>
        compiled.program.functions.map fun f => f.localNames compiled.labels) =
      some [["entry", "L0", "L1", "L2", "L3", "x", "x.1", "L0.1", "L0.2", ".arg_x", ".arg_x.1", ".r0",
          ".r1", ".r2", ".r3"], ["L4"]] := by
    decide +kernel
  cases accepted : frontEnd source with
  | error diagnostics => simp [accepted, Except.toOption] at names
  | ok script =>
    cases done : (compile {} script).result with
    | error failure => simp [accepted, done, Except.toOption] at names
    | ok compiled =>
      simp only [accepted, done, Except.toOption, Option.bind_some, Option.map_some,
        Option.some.injEq] at names
      exact ⟨script, compiled, rfl, done, names, compiled_localNames_nodup accepted done⟩

end Wabbit
