import Wabbit.Tac.Assembly
import Wabbit.Proofs.Names.Registers

/-!
Generated code is typed single assignment code, whatever code it is made from. Main statement: the
registers of a program are assigned in the order of their numbers, without a gap, and every operand
is a constant, or a register that was assigned earlier in its block, of just the LLVM type that is
printed in front of it.
-/

namespace Wabbit

namespace Tac

/-- Registers and the LLVM types of what they hold. -/
abbrev Types := List (Register × String)

/-- The LLVM type of the outcome of a comparison. -/
def flagType : String := "i1"

/-- The LLVM type of what an operator makes of operands of a kind. -/
def resultType (kind : Kind) : Operator → String
  | .arithmetic _ => kind.llvm
  | .compare _ => flagType

/-- Whether an operand has an LLVM type. -/
def Operand.hasType (types : Types) (type : String) : Operand → Bool
  | int _ => type = Kind.integer.llvm
  | float _ => type = Kind.float.llvm
  | register r => (r, type) ∈ types

/-- The operands of an instruction, each behind the LLVM type that is printed for it. -/
def Instr.operands : Instr → List (String × Operand)
  | binary _ _ kind left right => [(kind.llvm, left), (kind.llvm, right)]
  | convert _ conversion value => [(conversion.signature.2.1, value)]
  | store kind value _ | print kind value | ret kind value => [(kind.llvm, value)]
  | branch condition _ _ => [(flagType, condition)]
  | call _ _ _ arguments => arguments.map fun argument => (argument.1.llvm, argument.2)
  | alloca _ _ | load _ _ _ | jump _ => []

/-- The register that an instruction assigns, and the LLVM type of what it holds from then on. -/
def Instr.definition? : Instr → Option (Register × String)
  | binary result op kind _ _ => some (result, resultType kind op)
  | convert result conversion _ => some (result, conversion.signature.2.2)
  | load result kind _ | call result _ kind _ => some (result, kind.llvm)
  | alloca _ _ | store _ _ _ | print _ _ | ret _ _ | jump _ | branch _ _ _ => none

/-- What registers hold behind some instructions. -/
def typesAfter (types : Types) : List Instr → Types
  | [] => types
  | i :: rest => typesAfter (i.definition?.toList ++ types) rest

/-- Whether every operand of some instructions has the type that is printed for it, be it a constant
or a register that was assigned before. -/
def isTyped (types : Types) : List Instr → Bool
  | [] => true
  | i :: rest =>
    i.operands.all (fun operand => operand.2.hasType types operand.1) &&
      isTyped (i.definition?.toList ++ types) rest

private theorem Instr.result?_eq (i : Instr) : i.result? = i.definition?.map Prod.fst := by
  cases i <;> rfl

/-- Typed code leads from one state of the registers to another. -/
structure Typed (types types' : Types) (code : List Instr) : Prop where
  typed : isTyped types code = true
  after : typesAfter types code = types'

namespace Typed

variable {types types' types'' : Types} {front back : List Instr} {i : Instr}

theorem none (types : Types) : Typed types types [] := ⟨rfl, rfl⟩

/-- An instruction that assigns a register. -/
theorem assign {register : Register} {type : String}
    (result : i.definition? = some (register, type))
    (fits : ∀ operand ∈ i.operands, operand.2.hasType types operand.1 = true) :
    Typed types ((register, type) :: types) [i] :=
  ⟨by simpa [isTyped] using fits, by simp [typesAfter, result]⟩

/-- An instruction that assigns no register. -/
theorem effect (result : i.definition? = Option.none)
    (fits : ∀ operand ∈ i.operands, operand.2.hasType types operand.1 = true) :
    Typed types types [i] :=
  ⟨by simpa [isTyped] using fits, by simp [typesAfter, result]⟩

theorem append (first : Typed types types' front) (second : Typed types' types'' back) :
    Typed types types'' (front ++ back) := by
  induction front generalizing types with
  | nil =>
    cases first.after
    exact second
  | cons i rest ih =>
    obtain ⟨fits, typed⟩ := Bool.and_eq_true_iff.mp first.typed
    obtain ⟨others, after⟩ := ih ⟨typed, first.after⟩
    exact ⟨Bool.and_eq_true_iff.mpr ⟨fits, others⟩, after⟩

/-- What registers hold is never forgotten. -/
theorem grows (typed : Typed types types' front) : types ⊆ types' := by
  induction front generalizing types with
  | nil =>
    cases typed.after
    exact fun _ => id
  | cons i rest ih =>
    have later := ih ⟨(Bool.and_eq_true_iff.mp typed.typed).2, typed.after⟩
    exact List.Subset.trans (List.subset_append_right ..) later

end Typed

theorem Operand.hasType_mono {types types' : Types} {type : String} {operand : Operand}
    (known : operand.hasType types type = true) (grows : types ⊆ types') :
    operand.hasType types' type = true := by
  cases operand with
  | register r =>
    have member : (r, type) ∈ types := of_decide_eq_true known
    exact decide_eq_true (grows member)
  | _ => exact known

/-- Whether an entry of the simulated stack is held as its kind says, or as the outcome of a
comparison. -/
def Value.isHeld (types : Types) : Value → Bool
  | number operand kind => operand.hasType types kind.llvm
  | flag register _ => (register, flagType) ∈ types

theorem Value.isHeld_mono {types types' : Types} {v : Value} (held : v.isHeld types = true)
    (grows : types ⊆ types') : v.isHeld types' = true := by
  cases v with
  | number operand kind => exact Operand.hasType_mono held grows
  | flag register kind => exact decide_eq_true (grows (of_decide_eq_true held))

/-- All entries of the simulated stack are held. -/
def Machine.IsHeld (types : Types) (m : Machine) : Prop := ∀ v ∈ m.stack, v.isHeld types = true

namespace Machine.IsHeld

variable {types types' : Types} {m m' : Machine}

theorem later (held : m.IsHeld types) (grows : types ⊆ types') (same : m'.stack = m.stack) :
    m'.IsHeld types' :=
  fun v member => Value.isHeld_mono (held v (same ▸ member)) grows

private theorem push (held : m.IsHeld types) {v : Value} (own : v.isHeld types = true)
    (same : m'.stack = v :: m.stack) : m'.IsHeld types := by
  intro u member
  rcases List.mem_cons.mp (same ▸ member) with rfl | member
  · exact own
  · exact held u member

end Machine.IsHeld

namespace Step

variable {types : Types} {m m' : Machine} {code : List Instr}

private theorem convert_typed {conversion : Conversion} {value operand : Operand}
    (done : convert conversion value m = some (operand, code, m'))
    (fits : value.hasType types conversion.signature.2.1 = true) :
    ∃ types', Typed types types' code ∧ operand.hasType types' conversion.signature.2.2 = true := by
  cases done
  refine ⟨_, .assign rfl (by simpa [Instr.operands] using fits), ?_⟩
  exact decide_eq_true List.mem_cons_self

/-- A value that is made usable in a kind has the type of that kind. -/
theorem materialize_typed {value : Value} {kind : Kind} {operand : Operand}
    (done : materialize value kind m = some (operand, code, m'))
    (held : value.isHeld types = true) :
    ∃ types', Typed types types' code ∧ operand.hasType types' kind.llvm = true := by
  unfold materialize at done
  split at done
  · cases done
    exact ⟨types, .none types, rfl⟩
  · cases done
    exact ⟨types, .none types, rfl⟩
  · cases done
    exact ⟨types, .none types, held⟩
  · cases done
    exact ⟨types, .none types, held⟩
  · exact convert_typed done held
  · exact convert_typed done held
  · exact convert_typed done held
  · exact convert_typed done held

theorem pop_typed {value : Value} (done : pop m = some (value, code, m')) (held : m.IsHeld types) :
    Typed types types code ∧ value.isHeld types = true ∧ m'.IsHeld types := by
  obtain ⟨rfl, rfl⟩ := pop_inv done
  obtain ⟨own, others⟩ := List.forall_mem_cons.mp held
  exact ⟨.none types, own, others⟩

private theorem popMany_typed {count : Nat} {values : List Value}
    (done : popMany count m = some (values, code, m')) (held : m.IsHeld types) :
    Typed types types code ∧ (∀ v ∈ values, v.isHeld types = true) ∧ m'.IsHeld types := by
  obtain ⟨-, rfl, rfl, rfl⟩ := popMany_inv done
  refine ⟨.none types, fun v member => ?_, fun v member => held v (List.mem_of_mem_drop member)⟩
  exact held v (List.mem_of_mem_take (List.mem_reverse.mp member))

theorem popAs_typed {kind : Kind} {operand : Operand}
    (done : popAs kind m = some (operand, code, m')) (held : m.IsHeld types) :
    ∃ types', Typed types types' code ∧ operand.hasType types' kind.llvm = true ∧
      m'.IsHeld types' := by
  obtain ⟨value, front, m₁, back, popped, made, rfl⟩ := bind_eq_some.mp done
  obtain ⟨silent, own, others⟩ := pop_typed popped held
  obtain ⟨types', typed, fits⟩ := materialize_typed made own
  exact ⟨types', silent.append typed, fits, others.later typed.grows (stack_materialize made)⟩

/-- Every argument has the type of its own kind, also once later arguments are converted. -/
theorem arguments_typed {values : List Value} {operands : List (Kind × Operand)}
    (done : arguments values m = some (operands, code, m'))
    (held : ∀ v ∈ values, v.isHeld types = true) :
    ∃ types', Typed types types' code ∧
      ∀ argument ∈ operands, argument.2.hasType types' argument.1.llvm = true := by
  induction values generalizing m code operands types with
  | nil =>
    cases done
    exact ⟨types, .none types, nofun⟩
  | cons value values ih =>
    obtain ⟨operand, front, m₁, rest, made, later, rfl⟩ := bind_eq_some.mp done
    obtain ⟨operands, more, m₂, back, recursive, last, rfl⟩ := bind_eq_some.mp later
    cases last
    obtain ⟨own, others⟩ := List.forall_mem_cons.mp held
    obtain ⟨types₁, first, fits⟩ := materialize_typed made own
    obtain ⟨types₂, second, fit⟩ := ih recursive fun v member =>
      Value.isHeld_mono (others v member) first.grows
    rw [List.append_nil]
    refine ⟨types₂, first.append second, List.forall_mem_cons.mpr ⟨?_, fit⟩⟩
    exact Operand.hasType_mono fits second.grows

private theorem binary_typed {op : Operator} {kind : Kind} {result : Register}
    (done : binary op kind m = some (result, code, m')) (held : m.IsHeld types) :
    ∃ types', Typed types types' code ∧ (result, resultType kind op) ∈ types' ∧
      m'.IsHeld types' := by
  obtain ⟨right, front, m₁, rest, first, later, rfl⟩ := bind_eq_some.mp done
  obtain ⟨left, middle, m₂, back, second, last, rfl⟩ := bind_eq_some.mp later
  cases last
  obtain ⟨types₁, typed, fits, others⟩ := popAs_typed first held
  obtain ⟨types₂, typed', fits', others⟩ := popAs_typed second others
  have last : Typed types₂ _ [.binary (.numbered m₂.next) op kind left right] :=
    .assign rfl (by simp [Instr.operands, fits', Operand.hasType_mono fits typed'.grows])
  refine ⟨_, typed.append (typed'.append last), List.mem_cons_self, ?_⟩
  exact others.later (List.subset_cons_self ..) rfl

/-- The outcome of a comparison decides a branch. -/
theorem condition_typed {value : Value} {operand : Operand}
    (done : condition value m = some (operand, code, m')) (held : value.isHeld types = true) :
    ∃ types', Typed types types' code ∧ operand.hasType types' flagType = true := by
  cases value with
  | flag flag kind =>
    cases done
    exact ⟨types, .none types, held⟩
  | number number kind =>
    cases done
    have zero : (Operand.zero kind).hasType types kind.llvm = true := by cases kind <;> rfl
    have number : number.hasType types kind.llvm = true := held
    refine ⟨_, .assign rfl (by simp [Instr.operands, zero, number]), ?_⟩
    exact decide_eq_true List.mem_cons_self

end Step

/-- Whatever is on the simulated stack, the code for an instruction is typed. -/
theorem generateInstr_typed {types : Types} {i : Stack.Instr} {m m' : Machine} {code : List Instr}
    (done : generateInstr i m = some ((), code, m')) (held : m.IsHeld types) :
    ∃ types', Typed types types' code ∧ m'.IsHeld types' := by
  cases i with
  | push value =>
    cases value <;> cases done
    · exact ⟨types, .none types, held.push rfl rfl⟩
    · exact ⟨types, .none types, held.push rfl rfl⟩
  | load symbol =>
    cases done
    have last : Typed types _ [.load (.numbered m.next) symbol.kind (.ofSymbol symbol)] :=
      .assign rfl (by simp [Instr.operands])
    have kept : m.IsHeld _ := held.later last.grows rfl
    refine ⟨_, last, kept.push ?_ rfl⟩
    exact decide_eq_true List.mem_cons_self
  | arith op kind | compare op kind =>
    obtain ⟨result, front, m₁, back, computed, last, rfl⟩ := Step.bind_eq_some.mp done
    cases last
    obtain ⟨types', typed, member, others⟩ := Step.binary_typed computed held
    refine ⟨types', typed.append (.none types'), others.push ?_ rfl⟩
    exact decide_eq_true member
  | call function count kind =>
    obtain ⟨values, front, m₁, rest, popped, later, rfl⟩ := Step.bind_eq_some.mp done
    obtain ⟨operands, middle, m₂, back, made, last, rfl⟩ := Step.bind_eq_some.mp later
    cases last
    obtain ⟨silent, own, others⟩ := Step.popMany_typed popped held
    obtain ⟨types', typed, fits⟩ := Step.arguments_typed made own
    have last := Typed.assign (i := .call (.numbered m₂.next) function kind operands) rfl
      (List.forall_mem_map.mpr fits)
    have kept : m₂.IsHeld _ := others.later ((silent.append typed).append last).grows
      (Step.stack_arguments made)
    refine ⟨_, silent.append (typed.append last), kept.push ?_ rfl⟩
    exact decide_eq_true List.mem_cons_self
  | branch ifTrue ifFalse =>
    obtain ⟨value, front, m₁, rest, popped, later, rfl⟩ := Step.bind_eq_some.mp done
    obtain ⟨operand, middle, m₂, back, made, last, rfl⟩ := Step.bind_eq_some.mp later
    cases last
    obtain ⟨silent, own, others⟩ := Step.pop_typed popped held
    obtain ⟨types', typed, fits⟩ := Step.condition_typed made own
    have last := Typed.effect (i := .branch operand ifTrue ifFalse) rfl
      (by simpa [Instr.operands] using fits)
    refine ⟨types', silent.append (typed.append last), ?_⟩
    exact others.later typed.grows (Step.stack_condition made)
  | goto label | slot name =>
    cases done
    exact ⟨types, .effect rfl (by simp [Instr.operands]), held⟩
  | _ =>
    obtain ⟨value, front, m₁, back, popped, last, rfl⟩ := Step.bind_eq_some.mp done
    cases last
    obtain ⟨types', typed, fits, others⟩ := Step.popAs_typed popped held
    exact ⟨types', typed.append (.effect rfl (by simpa [Instr.operands] using fits)), others⟩

private theorem generateInstrs_typed {types : Types} {instrs : List Stack.Instr} {m m' : Machine}
    {code : List Instr} (done : generateInstrs m instrs = .ok (code, m')) (held : m.IsHeld types) :
    isTyped types code = true := by
  induction instrs generalizing types m code with
  | nil =>
    cases done
    rfl
  | cons i rest ih =>
    obtain ⟨front, m₁, back, first, recursive, rfl⟩ := generateInstrs_cons done
    obtain ⟨types', typed, others⟩ := generateInstr_typed first held
    exact (typed.append ⟨ih recursive others, rfl⟩).typed

/-- Every block starts with an empty stack, so its code stands on its own. -/
theorem generateBlock_typed {block : Stack.Block} {block' : Block} {n n' : Nat}
    (done : (generateBlock block).run n = .ok (block', n')) : isTyped [] block'.instrs = true := by
  obtain ⟨-, m, -, generated⟩ := generateBlock_inv done
  exact generateInstrs_typed generated nofun

private theorem generateBlocks_typed {blocks : List Stack.Block} {blocks' : List Block} {n n' : Nat}
    (done : (generateBlocks blocks).run n = .ok (blocks', n')) :
    ∀ block ∈ blocks', isTyped [] block.instrs = true := by
  have related := generateBlocks_related done
  clear done
  induction related with
  | nil => nofun
  | cons own _ ih =>
    obtain ⟨n, n', own⟩ := own
    exact List.forall_mem_cons.mpr ⟨generateBlock_typed own, ih⟩

end Tac

namespace Items

/-- The instructions of a program, in their order. -/
def instrs (program : Items Tac.Block) : List Tac.Instr :=
  program.functions.flatMap fun f => f.body.flatMap Tac.Block.instrs

/-- Registers are numbered on from function to function. -/
theorem mapFunctionsM_emits {β ε : Type} {f : FunDef β → StateT Nat (Except ε) (FunDef Tac.Block)}
    (each : ∀ g h n n', (f g).run n = .ok (h, n') →
      ∃ slots, Tac.Emits n n' slots (h.body.flatMap Tac.Block.instrs))
    {program : Items β} {program' : Items Tac.Block} {n n' : Nat}
    (done : (mapFunctionsM f program).run n = .ok (program', n')) :
    ∃ slots, Tac.Emits n n' slots program'.instrs := by
  induction program generalizing program' n with
  | nil =>
    obtain ⟨rfl, rfl⟩ := Success.run_pure_eq_ok.mp done
    exact ⟨[], .none _⟩
  | cons item rest ih =>
    cases item with
    | global symbol =>
      obtain ⟨others, recursive, rfl⟩ := mapFunctionsM_global done
      obtain ⟨slots, later⟩ := ih recursive
      exact ⟨slots, later⟩
    | function g =>
      obtain ⟨h, others, m, own, recursive, rfl⟩ := mapFunctionsM_function done
      obtain ⟨slots, first⟩ := each g h n m own
      obtain ⟨more, second⟩ := ih recursive
      exact ⟨slots ++ more, first.append second⟩

private theorem generate_definitions {program : Items Stack.Block} {generated : Items Tac.Block}
    (done : program.generate = .ok generated) :
    ∃ count, (generated.instrs.filterMap Tac.Instr.definition?).map Prod.fst =
      (List.range count).map Register.numbered := by
  obtain ⟨count, done⟩ := Success.run'_eq_ok.mp done
  obtain ⟨slots, emits⟩ := mapFunctionsM_emits (fun f g n n' own => by
    obtain ⟨body, m, blocks, own⟩ := Success.run_bind_eq_ok.mp own
    obtain ⟨rfl, rfl⟩ := Success.run_pure_eq_ok.mp own
    exact ⟨_, Tac.generateBlocks_emits blocks⟩) done
  refine ⟨count, ?_⟩
  rw [List.map_filterMap, ← funext Tac.Instr.result?_eq, emits.results, List.range_eq_range',
    Nat.sub_zero]

/-- The instructions of a generated program that assign registers assign `.r0`, `.r1`, `.r2` and so
on. Every operand is a constant of the type that is printed for it, or a register that was assigned
this type earlier in the same block. -/
theorem generated_isTyped {program : Items Stack.Block} {generated : Items Tac.Block}
    (done : program.generate = .ok generated) :
    (∃ count, (generated.instrs.filterMap Tac.Instr.definition?).map Prod.fst =
      (List.range count).map Register.numbered) ∧
    ∀ f ∈ generated.functions, ∀ block ∈ f.body, Tac.isTyped [] block.instrs = true := by
  refine ⟨generate_definitions done, fun g member => ?_⟩
  obtain ⟨f, -, -, -, n, n', own⟩ := (related_generate done).exists_left member
  exact Tac.generateBlocks_typed own

/-- Two functions whose code mixes kinds and leaves values behind: a float is stored as an integer,
outcomes of comparisons are an argument and a part of a sum, and a branch is decided by a number. -/
theorem generated_isTyped_mixed :
    let x : Ast.Symbol := .global "x" .integer
    let y : Ast.Symbol := .global "y" .float
    let first : Stack.Block := ⟨⟨0⟩, [.push (.int 1), .load y, .store x, .load x, .load y,
      .compare .less .float, .call "g" 1 .float, .load x, .load x, .compare .equal .integer,
      .arith .add .integer, .branch ⟨1⟩ ⟨2⟩]⟩
    let second : Stack.Block := ⟨⟨1⟩, [.load x, .push (.float .zero), .ret .integer]⟩
    let program : Items Stack.Block := [.function ⟨.global "f" .integer, [], [first, second]⟩,
      .global x, .function ⟨.global "g" .float, [], [second]⟩]
    let types := ["double", "i32", "i32", "double", "double", "i1", "double", "double", "i32", "i32",
      "i1", "i32", "i32", "i32", "i1", "i32", "i32"]
    ∃ generated, program.generate = .ok generated ∧
      (generated.instrs.filterMap Tac.Instr.definition?).map Prod.snd = types ∧
      (∃ count, (generated.instrs.filterMap Tac.Instr.definition?).map Prod.fst =
        (List.range count).map Register.numbered) ∧
      ∀ f ∈ generated.functions, ∀ block ∈ f.body, Tac.isTyped [] block.instrs = true := by
  intro x y first second program types
  have known : program.generate.toOption.map (fun generated =>
      (generated.instrs.filterMap Tac.Instr.definition?).map Prod.snd) = some types := by
    decide +kernel
  obtain ⟨generated, done, known⟩ := Option.map_eq_some_iff.mp known
  have done := Success.toOption_eq_some.mp done
  exact ⟨generated, done, known, generated_isTyped done⟩

end Items

end Wabbit
