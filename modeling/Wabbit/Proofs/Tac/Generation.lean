import Wabbit.Proofs.Tac.Simulation

/-!
Generated programs do what the stack machine does. Main statement: every block makes the same loads,
stores, prints and calls in the same order, with the same values, and ends in the same way, whatever
the registers hold when it starts.
-/

namespace Wabbit

namespace Stack

/-- Whether no constant float is used as an integer. The list says of all entries of the stack
whether they are constant floats. -/
def keepsFloats (floats : List Bool) : List Instr → Bool
  | [] => true
  | i :: rest =>
    !(i.usesAs = some .integer && (floats.take i.takes).any id) &&
      keepsFloats (i.floats ++ floats.drop i.takes) rest

/-- Whether all integers of a block have 32 bits, and no constant float is used as an integer. -/
def Block.isTranslatable (block : Block) : Bool :=
  block.instrs.all Instr.fits && keepsFloats [] block.instrs

end Stack

namespace Tac

variable {w : World}

/-- All that generating instructions can do: what is generated for the first one stands in front. -/
theorem generateInstrs_cons {i : Stack.Instr} {rest : List Stack.Instr} {m m' : Machine}
    {code : List Instr} (done : generateInstrs m (i :: rest) = .ok (code, m')) :
    ∃ front m₁ back, generateInstr i m = some ((), front, m₁) ∧
      generateInstrs m₁ rest = .ok (back, m') ∧ code = front ++ back := by
  unfold generateInstrs at done
  split at done
  · cases done
  · rename_i front m₁ first
    obtain ⟨⟨back, m₂⟩, recursive, last⟩ := Success.bind_eq_ok.mp done
    cases last
    exact ⟨front, m₁, back, first, recursive, rfl⟩

/-- What is generated for instructions does what the instructions do. -/
theorem generateInstrs_simulates {instrs : List Stack.Instr} {m m' : Machine} {code : List Instr}
    {regs : Registers} {stack : List Entry} (done : generateInstrs m instrs = .ok (code, m'))
    (represents : Represents regs m stack) (fits : ∀ i ∈ instrs, i.fits = true)
    (kept : Stack.keepsFloats (m.stack.map Value.isFloat) instrs = true) (s : w.State) :
    ∃ exit f regs', Stack.run w instrs ⟨stack, s⟩ = (exit, f) ∧
      run w code regs s = (exit, regs', f.state) ∧ exit ≠ .stuck := by
  induction instrs generalizing m code regs stack s with
  | nil =>
    cases done
    exact ⟨_, _, regs, rfl, rfl, by rintro ⟨⟩⟩
  | cons i rest ih =>
    simp only [Stack.keepsFloats, Bool.and_eq_true] at kept
    obtain ⟨own, others⟩ := kept
    have floats : ∀ kind, i.usesAs = some kind →
        ∀ v ∈ m.stack.take i.takes, v.isFloat = true → kind = .float := by
      intro kind uses v member constant
      cases kind with
      | float => rfl
      | integer => simp_all [← List.map_take]
    obtain ⟨front, m₁, back, first, recursive, rfl⟩ := generateInstrs_cons done
    obtain ⟨exit, f, regs₁, step, runs, moves, represents⟩ :=
      generateInstr_simulates (w := w) first represents (fits i (by simp)) floats s
    rw [← floats_generateInstr first] at others
    rw [Stack.run, step, run_append, runs]
    cases exit with
    | next =>
      have later (j : Stack.Instr) (member : j ∈ rest) := fits j (by simp [member])
      exact ih recursive (represents rfl) later others f.state
    | stuck => exact absurd rfl moves
    | _ => exact ⟨_, f, regs₁, rfl, rfl, by rintro ⟨⟩⟩

/-- All that generating a block can do. -/
theorem generateBlock_inv {block : Stack.Block} {block' : Block} {n n' : Nat}
    (done : (generateBlock block).run n = .ok (block', n')) :
    block'.label = block.label ∧ ∃ m : Machine, n' = m.next ∧
      generateInstrs { next := n } block.instrs = .ok (block'.instrs, m) := by
  obtain ⟨k, _, here, done⟩ := Success.run_bind_eq_ok.mp done
  cases here
  obtain ⟨⟨code, m⟩, k, lifted, done⟩ := Success.run_bind_eq_ok.mp done
  obtain ⟨generated, rfl⟩ := Success.run_lift_eq_ok.mp lifted
  obtain ⟨_, _, stored, done⟩ := Success.run_bind_eq_ok.mp done
  cases stored
  obtain ⟨rfl, rfl⟩ := Success.run_pure_eq_ok.mp done
  exact ⟨rfl, m, rfl, generated⟩

/-- A generated block does what the block does that it was made from. -/
theorem generateBlock_simulates {block : Stack.Block} {block' : Block} {n n' : Nat}
    (done : (generateBlock block).run n = .ok (block', n'))
    (translatable : block.isTranslatable = true) (regs : Registers) (s : w.State) :
    runAlone w block'.instrs regs s = Stack.runAlone w block.instrs s ∧
      (Stack.runAlone w block.instrs s).1 ≠ .stuck := by
  simp only [Stack.Block.isTranslatable, Bool.and_eq_true, List.all_eq_true] at translatable
  obtain ⟨fits, kept⟩ := translatable
  obtain ⟨-, m, -, generated⟩ := generateBlock_inv done
  have empty : Represents regs { next := n } [] := .nil
  obtain ⟨exit, f, regs', ran, runs, moves⟩ := generateInstrs_simulates generated empty fits kept s
  simp [runAlone, Stack.runAlone, ran, runs, moves]

theorem generateBlocks_related {blocks : List Stack.Block} {blocks' : List Block} {n n' : Nat}
    (done : (generateBlocks blocks).run n = .ok (blocks', n')) :
    List.Forall₂ (fun block block' => ∃ n n', (generateBlock block).run n = .ok (block', n'))
      blocks blocks' := by
  induction blocks generalizing blocks' n n' with
  | nil =>
    obtain ⟨rfl, -⟩ := Success.run_pure_eq_ok.mp done
    exact .nil
  | cons block rest ih =>
    obtain ⟨block', m, own, done⟩ := Success.run_bind_eq_ok.mp done
    obtain ⟨others, m', recursive, done⟩ := Success.run_bind_eq_ok.mp done
    obtain ⟨rfl, -⟩ := Success.run_pure_eq_ok.mp done
    exact .cons ⟨n, m, own⟩ (ih recursive)

/-- What every block keeps when it is generated, several blocks keep. -/
theorem map_generateBlocks {α : Type} {view : Stack.Block → α} {view' : Block → α}
    {blocks : List Stack.Block} {blocks' : List Block} {n n' : Nat}
    (keeps : ∀ {block block' n n'}, (generateBlock block).run n = .ok (block', n') →
      view' block' = view block)
    (done : (generateBlocks blocks).run n = .ok (blocks', n')) :
    blocks'.map view' = blocks.map view := by
  have related := generateBlocks_related done
  clear done
  induction related with
  | nil => rfl
  | cons own _ ih =>
    obtain ⟨_, _, own⟩ := own
    rw [List.map_cons, List.map_cons, keeps own, ih]

end Tac

namespace Items

/-- The functions of a generated program are made in turn, from some register on. -/
theorem related_generate {program : Items Stack.Block} {generated : Items Tac.Block}
    (done : program.generate = .ok generated) :
    Items.Related (fun f g => g.name = f.name ∧ g.parameters = f.parameters ∧
      ∃ n n', (Tac.generateBlocks f.body).run n = .ok (g.body, n')) program generated := by
  obtain ⟨n, done⟩ := Success.run'_eq_ok.mp done
  refine (related_mapFunctionsM done).imp ?_
  rintro f - g - ⟨n, n', own⟩
  obtain ⟨body, m, blocks, own⟩ := Success.run_bind_eq_ok.mp own
  obtain ⟨rfl, -⟩ := Success.run_pure_eq_ok.mp own
  exact ⟨rfl, rfl, n, m, blocks⟩

/-- Every block of a generated program has the same label and does the same as the block that it was
made from. -/
theorem generated_blocks_simulate {program : Items Stack.Block} {generated : Items Tac.Block}
    (done : program.generate = .ok generated)
    (translatable : ∀ f ∈ program.functions, ∀ block ∈ f.body, block.isTranslatable = true) :
    Items.Related (fun f g => g.name = f.name ∧ g.parameters = f.parameters ∧
      List.Forall₂ (fun block block' => block'.label = block.label ∧
        ∀ (w : World) (regs : Tac.Registers) (s : w.State),
          Tac.runAlone w block'.instrs regs s = Stack.runAlone w block.instrs s ∧
            (Stack.runAlone w block.instrs s).1 ≠ .stuck) f.body g.body) program generated := by
  refine (related_generate done).imp ?_
  rintro f inside g - ⟨name, parameters, n, n', own⟩
  have both := (List.forall₂_and_left _ _).mpr
    ⟨translatable f inside, Tac.generateBlocks_related own⟩
  refine ⟨name, parameters, both.imp ?_⟩
  rintro block block' ⟨fine, n, n', own⟩
  exact ⟨(Tac.generateBlock_inv own).1, fun w => Tac.generateBlock_simulates own fine⟩

/-- A block in which an integer is used as a float, the outcome of a comparison as an argument next
to a float, and an integer result as a float again. -/
theorem generated_blocks_simulate_conversions :
    let x : Ast.Symbol := .global "x" .float
    let block : Stack.Block := ⟨⟨0⟩, [.push (.int (-1)), .load x, .compare .less .float, .load x,
      .call "f" 2 .integer, .ret .float]⟩
    let program : Items Stack.Block := [.global x, .function ⟨.global "g" .float, [], [block]⟩]
    block.isTranslatable = true ∧ ∃ generated, program.generate = .ok generated ∧
      Items.Related (fun f g => g.name = f.name ∧ g.parameters = f.parameters ∧
        List.Forall₂ (fun block block' => block'.label = block.label ∧
          ∀ (w : World) (regs : Tac.Registers) (s : w.State),
            Tac.runAlone w block'.instrs regs s = Stack.runAlone w block.instrs s ∧
              (Stack.runAlone w block.instrs s).1 ≠ .stuck) f.body g.body) program generated := by
  intro x block program
  have fine : block.isTranslatable = true := by decide
  obtain ⟨generated, done⟩ : ∃ generated, program.generate = .ok generated := ⟨_, rfl⟩
  refine ⟨fine, generated, done, generated_blocks_simulate done fun f inside other member => ?_⟩
  rw [List.mem_singleton.mp inside] at member
  rw [List.mem_singleton.mp member]
  exact fine

end Items

end Wabbit
