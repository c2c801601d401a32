import Wabbit.Proofs.Outline.Blocks
import Wabbit.Proofs.Tac.Typing

/-!
Functions of three address code at work. Blocks and registers are found by their names, as they are
in the assembly. Where a run goes and what it does depends on the registers that it reads and on the
store, and not on what has happened before.
-/

namespace Wabbit

namespace Tac

/-! ### Registers by their names -/

/-- The operand with the name of its register in place of what the register was made for. -/
def Operand.byName : Operand → Operand
  | int value => .int value
  | float value => .float value
  | register r => .register (.named r.name)

/-- The instruction with the names of registers in place of what they were made for, so that
registers of the same name are the same. -/
def Instr.byName : Instr → Instr
  | binary result op kind left right =>
    .binary (.named result.name) op kind left.byName right.byName
  | convert result conversion value => .convert (.named result.name) conversion value.byName
  | alloca name kind => .alloca name kind
  | load result kind address => .load (.named result.name) kind address
  | store kind value address => .store kind value.byName address
  | print kind value => .print kind value.byName
  | ret kind value => .ret kind value.byName
  | jump label => .jump label
  | branch condition ifTrue ifFalse => .branch condition.byName ifTrue ifFalse
  | call result function kind arguments =>
    .call (.named result.name) function kind
      (arguments.map fun argument => (argument.1, argument.2.byName))

private theorem Instr.operands_byName (i : Instr) :
    i.byName.operands = i.operands.map fun operand => (operand.1, operand.2.byName) := by
  cases i <;> simp [byName, operands]

private theorem Instr.targets_byName (i : Instr) : i.byName.targets = i.targets := by
  cases i <;> rfl

/-- The name of the register that an operand is. -/
def Operand.reads? : Operand → Option String
  | register r => some r.name
  | int _ | float _ => none

/-- The names of the registers that an instruction reads. -/
def Instr.reads (i : Instr) : List String := i.operands.filterMap fun operand => operand.2.reads?

/-! ### Functions -/

/-- Goes through at most the given number of blocks, from the block with the name of a label on.
Gives the end of the run, or where it has got to, and the state there. -/
def follow (w : World) (labels : Labels) (blocks : List Block) :
    Nat → Label → Registers → w.State → Exit × w.State
  | 0, label, _, s => (.jump label, s)
  | steps + 1, label, regs, s =>
    match blocks.find? fun block => labels.nameOf block.label = labels.nameOf label with
    | none => (.stuck, s)
    | some block =>
      match run w (block.instrs.map Instr.byName) regs s with
      | (exit, regs, s) =>
        match exit.target? with
        | some target => follow w labels blocks steps target regs s
        | none => (exit, s)

/-- Runs a function from its first block through at most the given number of blocks. -/
def runFunction (w : World) (labels : Labels) (f : FunDef Block) (steps : Nat) (regs : Registers)
    (s : w.State) : Exit × w.State :=
  match f.body with
  | [] => (.stuck, s)
  | first :: _ => follow w labels f.body steps first.label regs s

theorem runFunction_of_cons {w : World} {labels : Labels} {f : FunDef Block} {first : Block}
    {rest : List Block} (body : f.body = first :: rest) (steps : Nat) (regs : Registers)
    (s : w.State) :
    runFunction w labels f steps regs s = follow w labels f.body steps first.label regs s := by
  simp only [runFunction, body]

/-- A first block that ends in a jump has its place in the run of a function. -/
theorem runFunction_of_jump {w : World} {labels : Labels} {f : FunDef Block} {first : Block}
    {rest : List Block} {next : Label} {regs regs' : Registers} {s s' : w.State}
    (body : f.body = first :: rest)
    (jumps : run w (first.instrs.map Instr.byName) regs s = (.jump next, regs', s')) (steps : Nat) :
    runFunction w labels f (steps + 1) regs s = follow w labels f.body steps next regs' s' := by
  rw [runFunction_of_cons body]
  simp only [follow, body, List.find?_cons_of_pos, decide_true, jumps, Exit.target?]

/-- The registers at the call of a function: each parameter names the register that holds its
argument. -/
def Registers.receive (regs : Registers) : List Ast.Symbol → List Number → Registers
  | parameter :: parameters, argument :: arguments =>
    (regs.receive parameters arguments).set (.named parameter.text) (.number argument)
  | _, _ => regs

end Tac

/-! ### What a run depends on -/

namespace World.State

open Tac (Address)

variable {w : World}

/-- The state with some history before its own. -/
def after (s : w.State) (prior : List Effect) : w.State := { s with trace := prior ++ s.trace }

theorem log_after (s : w.State) (prior : List Effect) (event : Effect) :
    (s.after prior).log event = (s.log event).after prior := by
  simp only [log, after, List.append_assoc]

private theorem load_after (s : w.State) (prior : List Effect) (address : Address) (kind : Kind) :
    (s.after prior).load address kind =
      ((s.load address kind).1, (s.load address kind).2.after prior) := by
  simp only [load, log_after]
  rfl

private theorem save_after (s : w.State) (prior : List Effect) (address : Address) (value : Number) :
    (s.after prior).save address value = (s.save address value).after prior := by
  simp only [save, log_after]
  rfl

private theorem call_after (s : w.State) (prior : List Effect) (function : String)
    (arguments : List Number) (kind : Kind) :
    (s.after prior).call function arguments kind =
      ((s.call function arguments kind).1, (s.call function arguments kind).2.after prior) := by
  have store : (s.after prior).store = s.store := rfl
  simp only [call, log_after, store]
  cases w.call s.store function arguments kind <;> rfl

end World.State

namespace Tac

variable {w : World} {hidden : String → Prop} {prior : List Effect} {regs regs' : Registers}
  {s : w.State}

/-- Whether registers hold the same, but for those whose names are hidden. -/
def Registers.Agree (hidden : String → Prop) (regs regs' : Registers) : Prop :=
  ∀ r, ¬ hidden r.name → regs' r = regs r

private theorem Registers.Agree.set (agree : Agree hidden regs regs') (r : Register) (word : Word) :
    Agree hidden (regs.set r word) (regs'.set r word) := by
  intro other seen
  unfold Registers.set
  split
  · rfl
  · exact agree other seen

/-- Two runs that have ended alike, but for what hidden registers hold and for some history before
the second one. -/
inductive Alike (hidden : String → Prop) (prior : List Effect) :
    Exit × Registers × w.State → Exit × Registers × w.State → Prop where
  | intro (exit : Exit) {regs regs' : Registers} (agree : regs.Agree hidden regs') (s : w.State) :
    Alike hidden prior (exit, regs, s) (exit, regs', s.after prior)

private theorem Operand.numbers?_congr {arguments : List (Kind × Operand)}
    (same : ∀ argument ∈ arguments, argument.2.word regs' = argument.2.word regs) :
    numbers? regs' arguments = numbers? regs arguments := by
  unfold numbers?
  induction arguments with
  | nil => rfl
  | cons argument rest ih =>
    obtain ⟨own, others⟩ := List.forall_mem_cons.mp same
    rw [List.mapM_cons, List.mapM_cons, ih others]
    simp only [number?, own]

/-- What an instruction does depends on the registers that it reads. -/
theorem Instr.step_alike {i : Instr}
    (reads : ∀ operand ∈ i.operands, operand.2.word regs' = operand.2.word regs)
    (agree : regs.Agree hidden regs') :
    Alike hidden prior (i.step w regs s) (i.step w regs' (s.after prior)) := by
  cases i with
  | binary result op kind left right =>
    simp only [operands, List.forall_mem_cons] at reads
    simp only [step, reads.1, reads.2.1]
    split
    · split
      · exact .intro _ (agree.set _ _) _
      · exact .intro _ agree _
    · exact .intro _ agree _
  | convert result conversion value =>
    simp only [operands, List.forall_mem_singleton] at reads
    simp only [step, reads]
    split
    · exact .intro _ (agree.set _ _) _
    · exact .intro _ agree _
  | alloca name kind => exact .intro _ agree _
  | load result kind address =>
    simp only [step, World.State.load_after]
    exact .intro _ (agree.set _ _) _
  | store kind value address =>
    simp only [operands, List.forall_mem_singleton] at reads
    simp only [step, Operand.number?, reads, World.State.save_after]
    split
    · exact .intro _ agree _
    · exact .intro _ agree _
  | print kind value =>
    simp only [operands, List.forall_mem_singleton] at reads
    simp only [step, Operand.number?, reads, World.State.log_after]
    split
    · exact .intro _ agree _
    · exact .intro _ agree _
  | ret kind value =>
    simp only [operands, List.forall_mem_singleton] at reads
    simp only [step, Operand.number?, reads]
    split
    · exact .intro _ agree _
    · exact .intro _ agree _
  | jump label => exact .intro _ agree _
  | branch condition ifTrue ifFalse =>
    simp only [operands, List.forall_mem_singleton] at reads
    simp only [step, reads]
    split
    · exact .intro _ agree _
    · exact .intro _ agree _
  | call result function kind arguments =>
    simp only [operands, List.forall_mem_map] at reads
    simp only [step, Operand.numbers?_congr reads, World.State.call_after]
    split
    · rcases s.call function _ kind with ⟨value | value, t⟩
      · exact .intro _ agree _
      · exact .intro _ (agree.set _ _) _
    · exact .intro _ agree _

/-- Registers that agree give an instruction that reads no hidden one the same operands. -/
theorem Instr.word_byName {i : Instr} (seen : ∀ name ∈ i.reads, ¬ hidden name)
    (agree : regs.Agree hidden regs') :
    ∀ operand ∈ i.byName.operands, operand.2.word regs' = operand.2.word regs := by
  rw [operands_byName]
  refine List.forall_mem_map.mpr fun operand member => ?_
  rcases operand with ⟨type, value | value | r⟩
  · rfl
  · rfl
  · exact agree (.named r.name) (seen r.name (List.mem_filterMap.mpr ⟨_, member, rfl⟩))

/-- What a run does depends on the registers that its instructions read. -/
theorem run_alike {instrs : List Instr} (seen : ∀ i ∈ instrs, ∀ name ∈ i.reads, ¬ hidden name)
    (agree : regs.Agree hidden regs') :
    Alike hidden prior (run w (instrs.map Instr.byName) regs s)
      (run w (instrs.map Instr.byName) regs' (s.after prior)) := by
  induction instrs generalizing regs regs' s with
  | nil => exact .intro _ agree _
  | cons i rest ih =>
    obtain ⟨own, others⟩ := List.forall_mem_cons.mp seen
    have first : Alike hidden prior (i.byName.step w regs s)
        (i.byName.step w regs' (s.after prior)) :=
      Instr.step_alike (Instr.word_byName own agree) agree
    simp only [List.map_cons, run]
    generalize i.byName.step w regs s = ended at first
    generalize i.byName.step w regs' (s.after prior) = ended' at first
    obtain ⟨exit, agree, t⟩ := first
    cases exit with
    | next => exact ih others agree
    | _ => exact .intro _ agree t

/-- The label that an instruction leads to is one of its targets. -/
theorem Instr.target_step {i : Instr} {target : Label}
    (leads : (i.step w regs s).1.target? = some target) : target ∈ i.targets := by
  cases i with
  | jump label =>
    cases leads
    exact List.mem_singleton_self _
  | branch condition ifTrue ifFalse =>
    simp only [step] at leads
    split at leads
    · rename_i holds _
      cases leads
      cases holds <;> simp [targets]
    · cases leads
  | _ =>
    simp only [step] at leads
    (repeat' split at leads) <;> cases leads

/-- The label that a run leads to is a target of its instructions. -/
theorem target_run {instrs : List Instr} {target : Label}
    (leads : (run w (instrs.map Instr.byName) regs s).1.target? = some target) :
    target ∈ instrs.flatMap Instr.targets := by
  induction instrs generalizing regs s with
  | nil => cases leads
  | cons i rest ih =>
    simp only [List.map_cons, run] at leads
    rcases step : i.byName.step w regs s with ⟨exit, regs₁, t⟩
    rw [step] at leads
    have own : exit.target? = some target → target ∈ i.targets := by
      intro own
      rw [← Instr.targets_byName]
      exact Instr.target_step (by rw [step]; exact own)
    rw [List.flatMap_cons]
    cases exit with
    | next => exact List.mem_append_right _ (ih leads)
    | _ => exact List.mem_append_left _ (own leads)

/-- Where a run goes through blocks depends on the registers that they read and on the blocks that
their labels are found to name. -/
theorem follow_alike {labels labels' : Labels} {blocks blocks' : List Block} {known : Label → Prop}
    (found : ∀ label, known label →
      (blocks'.find? fun block => labels'.nameOf block.label = labels'.nameOf label) =
        blocks.find? fun block => labels.nameOf block.label = labels.nameOf label)
    (closed : ∀ block ∈ blocks, ∀ target ∈ block.targets, known target)
    (seen : ∀ block ∈ blocks, ∀ i ∈ block.instrs, ∀ name ∈ i.reads, ¬ hidden name)
    {label : Label} (start : known label) (agree : regs.Agree hidden regs') (steps : Nat) :
    follow w labels' blocks' steps label regs' (s.after prior) =
      ((follow w labels blocks steps label regs s).1,
        (follow w labels blocks steps label regs s).2.after prior) := by
  -- The runs stay in step; registers and state differ from block to block as they do at the start.
  induction steps generalizing label regs regs' s with
  | zero => rfl
  | succ steps ih =>
    simp only [follow, found label start]
    cases own : blocks.find? fun block => labels.nameOf block.label = labels.nameOf label with
    | none => rfl
    | some block =>
      -- Both runs are at the same block, and from there go to a label that is known again.
      have member := List.mem_of_find?_eq_some own
      have alike : Alike hidden prior (run w (block.instrs.map Instr.byName) regs s)
          (run w (block.instrs.map Instr.byName) regs' (s.after prior)) :=
        run_alike (seen block member) agree
      have inside : ∀ target,
          (run w (block.instrs.map Instr.byName) regs s).1.target? = some target →
            target ∈ block.targets := fun _ => target_run
      simp only
      generalize run w (block.instrs.map Instr.byName) regs s = ended at alike inside
      generalize run w (block.instrs.map Instr.byName) regs' (s.after prior) = ended' at alike
      obtain ⟨exit, agree, t⟩ := alike
      simp only
      cases next : exit.target? with
      | none => rfl
      | some target => exact ih (closed block member target (inside target next)) agree

end Tac

end Wabbit
