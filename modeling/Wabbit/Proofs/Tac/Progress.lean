import Wabbit.Proofs.Tac.Generation

/-!
Code can be generated whenever no instruction takes more from the stack than there is: how high the
simulated stack is does not depend on the kinds and registers of its entries.
-/

namespace Wabbit

namespace Tac

namespace Step

variable {α β : Type} {m : Machine}

theorem bind_succeeds {x : Step α} {f : α → Step β} {a : α} {front : List Instr} {m₁ : Machine}
    (first : x m = some (a, front, m₁)) (second : ∃ out, f a m₁ = some out) :
    ∃ out, (x >>= f) m = some out := by
  obtain ⟨⟨b, back, m'⟩, second⟩ := second
  exact ⟨_, bind_eq_some.mpr ⟨a, front, m₁, back, first, second, rfl⟩⟩

theorem materialize_succeeds (value : Value) (kind : Kind) (m : Machine) :
    ∃ out, materialize value kind m = some out := by
  cases value with
  | number operand own => cases operand <;> cases own <;> cases kind <;> exact ⟨_, rfl⟩
  | flag register own => cases kind <;> exact ⟨_, rfl⟩

theorem popAs_succeeds (kind : Kind) (enough : 1 ≤ m.stack.length) :
    ∃ out, popAs kind m = some out := by
  obtain ⟨next, stack⟩ := m
  cases stack with
  | nil => cases enough
  | cons value rest => exact bind_succeeds rfl (materialize_succeeds value kind ⟨next, rest⟩)

private theorem binary_succeeds (op : Operator) (kind : Kind) (enough : 2 ≤ m.stack.length) :
    ∃ out, binary op kind m = some out := by
  obtain ⟨⟨right, front, m₁⟩, first⟩ := popAs_succeeds kind (Nat.le_of_succ_le enough)
  obtain ⟨value, top⟩ := stack_popAs first
  rw [top, List.length_cons] at enough
  obtain ⟨⟨left, middle, m₂⟩, second⟩ := popAs_succeeds kind (Nat.le_of_succ_le_succ enough)
  exact bind_succeeds first (bind_succeeds second ⟨_, rfl⟩)

private theorem arguments_succeeds (values : List Value) (m : Machine) :
    ∃ out, arguments values m = some out := by
  induction values generalizing m with
  | nil => exact ⟨_, rfl⟩
  | cons value values ih =>
    obtain ⟨⟨operand, front, m₁⟩, made⟩ := materialize_succeeds value value.kind m
    obtain ⟨⟨operands, back, m₂⟩, others⟩ := ih m₁
    exact bind_succeeds made (bind_succeeds others ⟨_, rfl⟩)

private theorem condition_succeeds (value : Value) (m : Machine) :
    ∃ out, condition value m = some out := by
  cases value <;> exact ⟨_, rfl⟩

end Step

open Step in
/-- Code can be generated for an instruction that finds its operands on the stack. -/
theorem generateInstr_succeeds {i : Stack.Instr} {m : Machine}
    (enough : i.takes ≤ m.stack.length) : ∃ out, generateInstr i m = some out := by
  cases i with
  | push value => cases value <;> exact ⟨_, rfl⟩
  | arith op kind =>
    obtain ⟨⟨result, code, m'⟩, computed⟩ := binary_succeeds (.arithmetic op) kind enough
    exact bind_succeeds computed ⟨_, rfl⟩
  | compare op kind =>
    obtain ⟨⟨result, code, m'⟩, computed⟩ := binary_succeeds (.compare op) kind enough
    exact bind_succeeds computed ⟨_, rfl⟩
  | call function count kind =>
    have popped : popMany count m = some ((m.stack.take count).reverse, [],
        { m with stack := m.stack.drop count }) := if_neg (Nat.not_lt.mpr enough)
    obtain ⟨⟨operands, code, m'⟩, made⟩ := arguments_succeeds (m.stack.take count).reverse
      { m with stack := m.stack.drop count }
    exact bind_succeeds popped (bind_succeeds made ⟨_, rfl⟩)
  | branch ifTrue ifFalse =>
    obtain ⟨next, stack⟩ := m
    cases stack with
    | nil => cases enough
    | cons value rest =>
      obtain ⟨⟨operand, code, m'⟩, made⟩ := condition_succeeds value ⟨next, rest⟩
      exact bind_succeeds rfl (bind_succeeds made ⟨_, rfl⟩)
  | store symbol =>
    obtain ⟨⟨operand, code, m'⟩, popped⟩ := popAs_succeeds symbol.kind enough
    exact bind_succeeds popped ⟨_, rfl⟩
  | print kind | ret kind =>
    obtain ⟨⟨operand, code, m'⟩, popped⟩ := popAs_succeeds kind enough
    exact bind_succeeds popped ⟨_, rfl⟩
  | _ => exact ⟨_, rfl⟩

/-- The simulated stack is as high as the real one. -/
theorem length_generateInstr {i : Stack.Instr} {m m' : Machine} {code : List Instr}
    (done : generateInstr i m = some ((), code, m')) :
    m'.stack.length = m.stack.length - i.takes + i.gives := by
  have floats := congrArg List.length (floats_generateInstr done)
  have gives : i.floats.length = i.gives := by
    cases i with
    | push value => cases value <;> rfl
    | _ => rfl
  simp only [List.length_map, List.length_append, List.length_drop, gives] at floats
  omega

private theorem generateInstrs_succeeds {instrs : List Stack.Instr} {m : Machine} {final : Nat}
    (known : Stack.heightAfter m.stack.length instrs = some final) :
    ∃ out, generateInstrs m instrs = .ok out := by
  induction instrs generalizing m with
  | nil => exact ⟨_, rfl⟩
  | cons i rest ih =>
    obtain ⟨enough, known⟩ := Stack.heightAfter_cons.mp known
    obtain ⟨⟨_, front, m₁⟩, own⟩ := generateInstr_succeeds enough
    rw [← length_generateInstr own] at known
    obtain ⟨⟨back, m₂⟩, others⟩ := ih known
    refine ⟨(front ++ back, m₂), ?_⟩
    rw [generateInstrs, own]
    exact Success.bind_eq_ok.mpr ⟨(back, m₂), others, rfl⟩

private theorem generateBlocks_succeeds {blocks : List Stack.Block}
    (known : ∀ block ∈ blocks, (Stack.heightAfter 0 block.instrs).isSome = true) (n : Nat) :
    ∃ blocks' n', (generateBlocks blocks).run n = .ok (blocks', n') := by
  induction blocks generalizing n with
  | nil => exact ⟨_, _, rfl⟩
  | cons block rest ih =>
    obtain ⟨own, others⟩ := List.forall_mem_cons.mp known
    obtain ⟨final, own⟩ := Option.isSome_iff_exists.mp own
    obtain ⟨⟨code, m⟩, generated⟩ := generateInstrs_succeeds (m := { next := n }) own
    have lifted := Success.run_lift_eq_ok (s := n).mpr ⟨generated, rfl⟩
    have first : (generateBlock block).run n = .ok (⟨block.label, code⟩, m.next) :=
      Success.run_bind_eq_ok.mpr ⟨n, n, rfl, Success.run_bind_eq_ok.mpr ⟨_, n, lifted, rfl⟩⟩
    obtain ⟨rest', n', recursive⟩ := ih others m.next
    exact Success.run_bind first (Success.run_bind recursive ⟨_, _, rfl⟩)

end Tac

/-- A program can be generated if no block takes more from the stack than it has put there. -/
theorem Items.generate_succeeds {program : Items Stack.Block}
    (known : ∀ f ∈ program.functions, ∀ block ∈ f.body,
      (Stack.heightAfter 0 block.instrs).isSome = true) :
    ∃ generated, program.generate = .ok generated := by
  obtain ⟨generated, n, done⟩ : ∃ generated n, (program.mapFunctionsM fun f => do
      return f.withBody (← Tac.generateBlocks f.body)).run 0 = .ok (generated, n) := by
    refine mapFunctionsM_succeeds (fun f member n => ?_) 0
    obtain ⟨blocks, n', own⟩ := Tac.generateBlocks_succeeds (known f member) n
    exact Success.run_bind own ⟨_, _, rfl⟩
  exact ⟨generated, Success.run'_eq_ok.mpr ⟨n, done⟩⟩

end Wabbit
