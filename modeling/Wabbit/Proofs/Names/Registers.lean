import Wabbit.Proofs.Names.Lowering
import Wabbit.Proofs.Tac.Generation

/-!
The registers that generated code assigns. They are numbered without a gap, in the order in which
they are assigned, and the code makes room for the variables of the code it is made from.
-/

namespace Wabbit.Tac

/-- The register that an instruction assigns. -/
def Instr.result? : Instr → Option Register
  | binary result _ _ _ _ | convert result _ _ | load result _ _ | call result _ _ _ => some result
  | _ => none

/-- The variable that an instruction makes room for. -/
def Instr.alloca? : Instr → Option String
  | alloca name _ => some name
  | _ => none

/-- The code assigns the registers with the numbers from `n` to `n'`, and makes room for the given
variables. -/
structure Emits (n n' : Nat) (slots : List String) (code : List Instr) : Prop where
  grows : n ≤ n'
  results : code.filterMap Instr.result? = (List.range' n (n' - n)).map Register.numbered
  allocas : code.filterMap Instr.alloca? = slots

namespace Emits

variable {n m n' : Nat} {slots others : List String} {front back : List Instr}

theorem none (n : Nat) : Emits n n [] [] := ⟨Nat.le_refl n, by simp, rfl⟩

theorem append (first : Emits n m slots front) (second : Emits m n' others back) :
    Emits n n' (slots ++ others) (front ++ back) where
  grows := Nat.le_trans first.grows second.grows
  results := by
    have split : n' - n = (m - n) + (n' - m) := by
      have := first.grows
      have := second.grows
      omega
    have start : m = n + (m - n) := (Nat.add_sub_cancel' first.grows).symm
    rw [List.filterMap_append, first.results, second.results, split, ← List.range'_append_1, ← start,
      List.map_append]
  allocas := by rw [List.filterMap_append, first.allocas, second.allocas]

/-- An instruction that assigns the next register. -/
theorem assign {instr : Instr} (result : instr.result? = some (.numbered n))
    (room : instr.alloca? = Option.none) : Emits n (n + 1) [] [instr] :=
  ⟨Nat.le_succ n, by simp [result], by simp [room]⟩

/-- An instruction that assigns no register. -/
theorem effect {instr : Instr} (result : instr.result? = Option.none)
    (room : instr.alloca?.toList = slots) : Emits n n slots [instr] := by
  refine ⟨Nat.le_refl n, by simp [result], ?_⟩
  rw [← room]
  cases same : instr.alloca? <;> simp [same]

end Emits

namespace Step

variable {α : Type} {m m' : Machine} {code : List Instr}

private theorem convert_emits {conversion : Conversion} {value operand : Operand}
    (done : convert conversion value m = some (operand, code, m')) :
    Emits m.next m'.next [] code := by
  cases done
  exact .assign rfl rfl

theorem pure_emits {a b : α} (done : (pure a : Step α) m = some (b, code, m')) :
    Emits m.next m'.next [] code := by
  cases done
  exact .none _

theorem materialize_emits {value : Value} {kind : Kind} {operand : Operand}
    (done : materialize value kind m = some (operand, code, m')) : Emits m.next m'.next [] code := by
  unfold materialize at done
  split at done
  · exact pure_emits done
  · exact pure_emits done
  · exact pure_emits done
  · exact pure_emits done
  · exact convert_emits done
  · exact convert_emits done
  · exact convert_emits done
  · exact convert_emits done

theorem pop_emits {value : Value} (done : pop m = some (value, code, m')) :
    Emits m.next m'.next [] code := by
  obtain ⟨rfl, rfl⟩ := pop_inv done
  exact .none _

theorem popAs_emits {kind : Kind} {operand : Operand}
    (done : popAs kind m = some (operand, code, m')) : Emits m.next m'.next [] code := by
  obtain ⟨value, front, m₁, back, popped, made, rfl⟩ := bind_eq_some.mp done
  exact (pop_emits popped).append (materialize_emits made)

private theorem popMany_emits {count : Nat} {values : List Value}
    (done : popMany count m = some (values, code, m')) : Emits m.next m'.next [] code := by
  obtain ⟨-, rfl, rfl, rfl⟩ := popMany_inv done
  exact .none _

private theorem arguments_emits {values : List Value} {operands : List (Kind × Operand)}
    (done : arguments values m = some (operands, code, m')) : Emits m.next m'.next [] code := by
  induction values generalizing m code operands with
  | nil =>
    cases done
    exact .none _
  | cons value values ih =>
    obtain ⟨operand, front, m₁, rest, made, later, rfl⟩ := bind_eq_some.mp done
    obtain ⟨operands, more, m₂, back, recursive, last, rfl⟩ := bind_eq_some.mp later
    cases last
    rw [List.append_nil]
    exact (materialize_emits made).append (ih recursive)

private theorem binary_emits {op : Operator} {kind : Kind} {result : Register}
    (done : binary op kind m = some (result, code, m')) : Emits m.next m'.next [] code := by
  obtain ⟨right, front, m₁, rest, first, later, rfl⟩ := bind_eq_some.mp done
  obtain ⟨left, middle, m₂, back, second, last, rfl⟩ := bind_eq_some.mp later
  cases last
  exact (popAs_emits first).append ((popAs_emits second).append (.assign rfl rfl))

private theorem condition_emits {value : Value} {operand : Operand}
    (done : condition value m = some (operand, code, m')) : Emits m.next m'.next [] code := by
  cases value with
  | flag flag kind => exact pure_emits done
  | number operand kind =>
    cases done
    exact .assign rfl rfl

end Step

/-- All registers that are taken for an instruction are assigned at once. -/
theorem generateInstr_emits {i : Stack.Instr} {m m' : Machine} {code : List Instr}
    (done : generateInstr i m = some ((), code, m')) :
    Emits m.next m'.next i.slot?.toList code := by
  cases i with
  | push value =>
    cases value <;> cases done
    · exact .none _
    · exact .none _
  | load symbol =>
    cases done
    exact .assign rfl rfl
  | arith op kind | compare op kind =>
    obtain ⟨result, front, m₁, back, computed, last, rfl⟩ := Step.bind_eq_some.mp done
    cases last
    exact (Step.binary_emits computed).append (.none _)
  | call function count kind =>
    obtain ⟨values, front, m₁, rest, popped, later, rfl⟩ := Step.bind_eq_some.mp done
    obtain ⟨operands, middle, m₂, back, made, last, rfl⟩ := Step.bind_eq_some.mp later
    cases last
    exact (Step.popMany_emits popped).append ((Step.arguments_emits made).append (.assign rfl rfl))
  | branch ifTrue ifFalse =>
    obtain ⟨value, front, m₁, rest, popped, later, rfl⟩ := Step.bind_eq_some.mp done
    obtain ⟨operand, middle, m₂, back, made, last, rfl⟩ := Step.bind_eq_some.mp later
    cases last
    exact (Step.pop_emits popped).append ((Step.condition_emits made).append (.effect rfl rfl))
  | goto label | slot name =>
    cases done
    exact .effect rfl rfl
  | _ =>
    obtain ⟨value, front, m₁, back, popped, last, rfl⟩ := Step.bind_eq_some.mp done
    cases last
    exact (Step.popAs_emits popped).append (.effect rfl rfl)

private theorem generateInstrs_emits {instrs : List Stack.Instr} {m m' : Machine} {code : List Instr}
    (done : generateInstrs m instrs = .ok (code, m')) :
    Emits m.next m'.next (Stack.slotsOf instrs) code := by
  induction instrs generalizing m code with
  | nil =>
    cases done
    exact .none _
  | cons i rest ih =>
    obtain ⟨front, m₁, back, first, recursive, rfl⟩ := generateInstrs_cons done
    rw [Stack.slotsOf_cons]
    exact (generateInstr_emits first).append (ih recursive)

theorem generateBlocks_labels {blocks : List Stack.Block} {blocks' : List Block} {n n' : Nat}
    (done : (generateBlocks blocks).run n = .ok (blocks', n')) :
    blocks'.map Block.label = blocks.map Stack.Block.label :=
  map_generateBlocks (fun own => (generateBlock_inv own).1) done

/-- Registers are numbered on from block to block. -/
theorem generateBlocks_emits {blocks : List Stack.Block} {blocks' : List Block} {n n' : Nat}
    (done : (generateBlocks blocks).run n = .ok (blocks', n')) :
    Emits n n' (Stack.blockSlots blocks) (blocks'.flatMap Block.instrs) := by
  induction blocks generalizing blocks' n with
  | nil =>
    obtain ⟨rfl, rfl⟩ := Success.run_pure_eq_ok.mp done
    exact .none _
  | cons block rest ih =>
    obtain ⟨block', m, own, done⟩ := Success.run_bind_eq_ok.mp done
    obtain ⟨others, m', recursive, done⟩ := Success.run_bind_eq_ok.mp done
    obtain ⟨rfl, rfl⟩ := Success.run_pure_eq_ok.mp done
    obtain ⟨-, machine, rfl, generated⟩ := generateBlock_inv own
    rw [Stack.blockSlots_cons, List.flatMap_cons]
    exact (generateInstrs_emits generated).append (ih recursive)

end Wabbit.Tac
