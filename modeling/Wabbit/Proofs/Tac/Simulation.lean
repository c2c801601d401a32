import Mathlib.Data.List.Forall2
import Wabbit.Tac.Generate
import Wabbit.Proofs.Success
import Wabbit.Proofs.Meaning.Integers
import Wabbit.Proofs.Stack.Running
import Wabbit.Proofs.Tac.Running

/-!
Three address code does what the stack machine does. The simulated stack, together with the
registers, holds the entries of the real one, and registers that are assigned later never change an
entry that is held already.
-/

namespace Wabbit

namespace Tac

/-- Whether an entry of the simulated stack is a constant float. -/
def Value.isFloat : Value → Bool
  | number (.float _) _ => true
  | _ => false

/-- An entry of the simulated stack stands for an entry of the real one. Registers are taken into
account up to a number. -/
inductive Holds (regs : Registers) (next : Nat) : Value → Entry → Prop where
  | int {value : Int64} (fits : fitsInt32 value = true) :
      Holds regs next (.number (.int value) .integer) (.number ⟨.integer, value.toInt32⟩)
  | float (value : Binary64) :
      Holds regs next (.number (.float value) .float) (.number ⟨.float, value⟩)
  | number {k : Nat} {kind : Kind} {value : kind.Carrier} (below : k < next)
      (held : regs (.numbered k) = .number ⟨kind, value⟩) :
      Holds regs next (.number (.register (.numbered k)) kind) (.number ⟨kind, value⟩)
  | flag {k : Nat} {holds : Bool} (kind : Kind) (below : k < next)
      (held : regs (.numbered k) = .flag holds) :
      Holds regs next (.flag (.numbered k) kind) (.flag holds kind)

/-- An operand stands for a word. Registers are taken into account up to a number. -/
def Stands (regs : Registers) (next : Nat) (operand : Operand) (word : Word) : Prop :=
  operand.word regs = word ∧ ∀ r, operand = .register r → ∃ k < next, r = .numbered k

/-- Code that does nothing but assign registers from a number on. -/
structure Silent (w : World) (code : List Instr) (regs regs' : Registers) (next next' : Nat) :
    Prop where
  runs : ∀ s : w.State, run w code regs s = (.next, regs', s)
  grows : next ≤ next'
  keeps : ∀ k < next, regs' (.numbered k) = regs (.numbered k)

namespace Silent

variable {w : World} {front back : List Instr} {regs regs' regs'' : Registers}
variable {next next' next'' : Nat}

theorem none (regs : Registers) (next : Nat) : Silent w [] regs regs next next :=
  ⟨fun _ => rfl, Nat.le_refl _, fun _ _ => rfl⟩

theorem run_append (silent : Silent w front regs regs' next next') (back : List Instr)
    (s : w.State) : run w (front ++ back) regs s = run w back regs' s := by
  rw [Tac.run_append, silent.runs]

theorem trans (first : Silent w front regs regs' next next')
    (second : Silent w back regs' regs'' next' next'') :
    Silent w (front ++ back) regs regs'' next next'' where
  runs s := (first.run_append back s).trans (second.runs s)
  grows := Nat.le_trans first.grows second.grows
  keeps k below :=
    (second.keeps k (Nat.lt_of_lt_of_le below first.grows)).trans (first.keeps k below)

/-- Other registers keep what they hold when the next one is assigned. -/
theorem assign {i : Instr} {word : Word}
    (step : ∀ s : w.State, i.step w regs s = (.next, regs.set (.numbered next) word, s)) :
    Silent w [i] regs (regs.set (.numbered next) word) next (next + 1) where
  runs s := by simp [run, step]
  grows := Nat.le_succ next
  keeps k below := by simp [Registers.set, Nat.ne_of_lt below]

end Silent

section Later

variable {regs regs' : Registers} {next next' : Nat}

theorem Holds.later {value : Value} {e : Entry} (holds : Holds regs next value e)
    (grows : next ≤ next') (keeps : ∀ k < next, regs' (.numbered k) = regs (.numbered k)) :
    Holds regs' next' value e := by
  cases holds with
  | int fits => exact .int fits
  | float value => exact .float value
  | number below held =>
    exact .number (Nat.lt_of_lt_of_le below grows) ((keeps _ below).trans held)
  | flag kind below held =>
    exact .flag kind (Nat.lt_of_lt_of_le below grows) ((keeps _ below).trans held)

theorem Stands.later {operand : Operand} {word : Word} (stands : Stands regs next operand word)
    (grows : next ≤ next') (keeps : ∀ k < next, regs' (.numbered k) = regs (.numbered k)) :
    Stands regs' next' operand word := by
  obtain ⟨held, below⟩ := stands
  cases operand with
  | int value => exact ⟨held, nofun⟩
  | float value => exact ⟨held, nofun⟩
  | register r =>
    obtain ⟨k, less, rfl⟩ := below r rfl
    refine ⟨(keeps k less).trans held, ?_⟩
    rintro r ⟨⟩
    exact ⟨k, Nat.lt_of_lt_of_le less grows, rfl⟩

end Later

theorem Stands.number?_eq {regs : Registers} {next : Nat} {operand : Operand} {n : Number}
    (stands : Stands regs next operand (.number n)) : operand.number? regs n.kind = some n := by
  obtain ⟨kind, value⟩ := n
  simp [Operand.number?, stands.1]

/-- A register that has just been assigned. -/
theorem Stands.assigned (regs : Registers) (k : Nat) (word : Word) :
    Stands (regs.set (.numbered k) word) (k + 1) (.register (.numbered k)) word := by
  refine ⟨Registers.set_same _ _ _, ?_⟩
  rintro r ⟨⟩
  exact ⟨k, Nat.lt_succ_self k, rfl⟩

/-- Assigning the next register leaves alone what is held already. -/
theorem holds_assigned {regs : Registers} {next : Nat} {values : List Value} {entries : List Entry}
    (all : List.Forall₂ (Holds regs next) values entries) (word : Word) :
    List.Forall₂ (Holds (regs.set (.numbered next) word) (next + 1)) values entries :=
  all.imp fun _ _ holds => holds.later (Nat.le_succ next) fun k below => by
    simp [Registers.set, Nat.ne_of_lt below]

/-- The simulated stack stands for the real one. -/
abbrev Represents (regs : Registers) (m : Machine) (stack : List Entry) : Prop :=
  List.Forall₂ (Holds regs m.next) m.stack stack

private theorem Holds.kind_eq {regs : Registers} {next : Nat} {value : Value} {e : Entry}
    (holds : Holds regs next value e) : value.kind = e.kind := by
  cases holds <;> rfl

private theorem Holds.kind_eq_float {regs : Registers} {next : Nat} {value : Value} {e : Entry}
    (holds : Holds regs next value e) (constant : value.isFloat = true) : value.kind = .float := by
  cases holds with
  | float value => rfl
  | _ => cases constant

namespace Step

variable {w : World} {α β : Type} {m m' : Machine} {code : List Instr} {regs : Registers}

theorem bind_eq_some {x : Step α} {f : α → Step β} {b : β} :
    (x >>= f) m = some (b, code, m') ↔ ∃ a front m₁ back, x m = some (a, front, m₁) ∧
      f a m₁ = some (b, back, m') ∧ code = front ++ back := by
  simp only [bind, Option.bind_eq_some_iff, Option.map_eq_some_iff, Prod.exists, Prod.mk.injEq]
  constructor
  · rintro ⟨a, front, m₁, first, b, back, m₂, second, rfl, rfl, rfl⟩
    exact ⟨a, front, m₁, back, first, second, rfl⟩
  · rintro ⟨a, front, m₁, back, first, second, rfl⟩
    exact ⟨a, front, m₁, first, b, back, m', second, rfl, rfl, rfl⟩

theorem stack_materialize {value : Value} {kind : Kind} {operand : Operand}
    (done : materialize value kind m = some (operand, code, m')) : m'.stack = m.stack := by
  cases value with
  | number operand own =>
    cases operand <;> cases own <;> cases kind <;> cases done <;> rfl
  | flag register own => cases kind <;> cases done <;> rfl

/-- All that taking a value can do: it was on top of the stack, and nothing is generated. -/
theorem pop_inv {v : Value} (done : pop m = some (v, code, m')) :
    code = [] ∧ m = { m' with stack := v :: m'.stack } := by
  obtain ⟨next, stack⟩ := m
  cases stack with
  | nil => cases done
  | cons top rest =>
    cases done
    exact ⟨rfl, rfl⟩

/-- All that taking several values can do. -/
theorem popMany_inv {count : Nat} {values : List Value}
    (done : popMany count m = some (values, code, m')) :
    ¬ m.stack.length < count ∧ values = (m.stack.take count).reverse ∧ code = [] ∧
      m' = { m with stack := m.stack.drop count } := by
  unfold popMany at done
  split at done
  · cases done
  · rename_i enough
    cases done
    exact ⟨enough, rfl, rfl, rfl⟩

theorem stack_pop {v : Value} (done : pop m = some (v, code, m')) :
    m.stack = v :: m'.stack := by
  obtain ⟨-, rfl⟩ := pop_inv done
  rfl

theorem stack_popAs {kind : Kind} {operand : Operand}
    (done : popAs kind m = some (operand, code, m')) : ∃ v, m.stack = v :: m'.stack := by
  obtain ⟨v, front, m₁, back, popped, made, rfl⟩ := bind_eq_some.mp done
  exact ⟨v, by rw [stack_pop popped, stack_materialize made]⟩

theorem stack_arguments {values : List Value} {operands : List (Kind × Operand)}
    (done : arguments values m = some (operands, code, m')) : m'.stack = m.stack := by
  induction values generalizing m code operands with
  | nil =>
    cases done
    rfl
  | cons v values ih =>
    obtain ⟨operand, front, m₁, rest, made, later, rfl⟩ := bind_eq_some.mp done
    obtain ⟨operands, more, m₂, back, recursive, last, rfl⟩ := bind_eq_some.mp later
    cases last
    exact (ih recursive).trans (stack_materialize made)

theorem stack_binary {op : Operator} {kind : Kind} {result : Register}
    (done : binary op kind m = some (result, code, m')) :
    ∃ right left, m.stack = right :: left :: m'.stack := by
  obtain ⟨y, front, m₁, rest, first, later, rfl⟩ := bind_eq_some.mp done
  obtain ⟨x, middle, m₂, back, second, last, rfl⟩ := bind_eq_some.mp later
  cases last
  obtain ⟨right, top⟩ := stack_popAs first
  obtain ⟨left, behind⟩ := stack_popAs second
  exact ⟨right, left, by rw [top, behind]⟩

theorem stack_condition {value : Value} {operand : Operand}
    (done : condition value m = some (operand, code, m')) : m'.stack = m.stack := by
  cases value <;> cases done <;> rfl

private theorem convert_silent {conversion : Conversion} {value operand : Operand} {n : Number}
    (done : convert conversion value m = some (operand, code, m'))
    (applied : conversion.apply w (value.word regs) = some n) :
    ∃ regs', Silent w code regs regs' m.next m'.next ∧
      Stands regs' m'.next operand (.number n) := by
  cases done
  exact ⟨_, .assign fun s => by simp [Instr.step, applied], .assigned regs _ _⟩

/-- A value that is made usable in a kind stands for what its entry counts as in that kind. -/
theorem materialize_silent {value : Value} {e : Entry} {kind : Kind} {operand : Operand}
    (done : materialize value kind m = some (operand, code, m')) (holds : Holds regs m.next value e)
    (kept : value.isFloat = true → kind = .float) :
    ∃ regs', Silent w code regs regs' m.next m'.next ∧
      Stands regs' m'.next operand (.number ⟨kind, w.convert e kind⟩) := by
  cases holds with
  | int fits =>
    cases kind with
    | integer =>
      cases done
      exact ⟨regs, .none _ _, rfl, nofun⟩
    | float =>
      cases done
      refine ⟨regs, .none _ _, ?_, nofun⟩
      simp only [Operand.word, World.convert, World.ofNumber, toInt_toInt32 fits]
  | float value =>
    cases kept rfl
    cases done
    exact ⟨regs, .none _ _, rfl, nofun⟩
  | @number k from' value below held =>
    have same : Stands regs m.next (.register (.numbered k)) (.number ⟨from', value⟩) :=
      ⟨held, by rintro r ⟨⟩; exact ⟨k, below, rfl⟩⟩
    cases from' <;> cases kind
    · cases done
      exact ⟨regs, .none _ _, same⟩
    · exact convert_silent done (by simp only [Operand.word, held]; rfl)
    · exact convert_silent done (by simp only [Operand.word, held]; rfl)
    · cases done
      exact ⟨regs, .none _ _, same⟩
  | flag from' below held =>
    cases kind
    · exact convert_silent done (by simp only [Operand.word, held]; rfl)
    · exact convert_silent done (by simp only [Operand.word, held]; rfl)

theorem popAs_silent {kind : Kind} {operand : Operand} {stack : List Entry}
    (represents : Represents regs m stack)
    (kept : ∀ v ∈ m.stack.take 1, v.isFloat = true → kind = .float)
    (done : popAs kind m = some (operand, code, m')) :
    ∃ v e below, m.stack = v :: m'.stack ∧ stack = e :: below ∧
      ∃ regs', Silent w code regs regs' m.next m'.next ∧ Represents regs' m' below ∧
        Stands regs' m'.next operand (.number ⟨kind, w.convert e kind⟩) := by
  obtain ⟨next, values⟩ := m
  obtain ⟨v, front, m₁, back, popped, made, rfl⟩ := bind_eq_some.mp done
  cases represents with
  | nil => cases popped
  | @cons v e rest below holds others =>
    cases popped
    obtain ⟨regs', silent, stands⟩ := materialize_silent made holds (kept v (by simp))
    have same := stack_materialize made
    refine ⟨v, e, below, by rw [same], rfl, regs', silent, ?_, stands⟩
    unfold Represents
    rw [same]
    exact others.imp fun _ _ holds => holds.later silent.grows silent.keeps

/-- An operand is taken from the stack and used at once. -/
theorem popAs_emit_runs {kind : Kind} {instr : Operand → Instr} {stack : List Entry}
    (done : (do let value ← popAs kind; emit (instr value)) m = some ((), code, m'))
    (represents : Represents regs m stack)
    (kept : ∀ v ∈ m.stack.take 1, v.isFloat = true → kind = .float) :
    ∃ operand e below, stack = e :: below ∧ ∃ regs', Represents regs' m' below ∧
      operand.number? regs' kind = some ⟨kind, w.convert e kind⟩ ∧
      ∀ s : w.State, run w code regs s = (instr operand).step w regs' s := by
  obtain ⟨operand, front, m₁, back, popped, last, rfl⟩ := bind_eq_some.mp done
  cases last
  obtain ⟨v, e, below, -, rfl, regs', silent, represents, stands⟩ :=
    popAs_silent (w := w) represents kept popped
  refine ⟨operand, e, below, rfl, regs', represents, stands.number?_eq, fun s => ?_⟩
  rw [silent.run_append, run_singleton]

/-- Arguments stand for the entries they are made of, each in its own kind. -/
theorem arguments_silent {values : List Value} {entries : List Entry}
    {operands : List (Kind × Operand)} (done : arguments values m = some (operands, code, m'))
    (represents : List.Forall₂ (Holds regs m.next) values entries) :
    ∃ regs', Silent w code regs regs' m.next m'.next ∧
      List.Forall₂ (fun argument e => argument.1 = (w.argument e).kind ∧
        Stands regs' m'.next argument.2 (.number (w.argument e))) operands entries := by
  induction values generalizing entries operands m code regs with
  | nil =>
    cases represents
    cases done
    exact ⟨regs, .none _ _, .nil⟩
  | cons v values ih =>
    cases represents with
    | @cons _ e _ entries holds others =>
      obtain ⟨operand, front, m₁, rest, made, later, rfl⟩ := bind_eq_some.mp done
      obtain ⟨operands, more, m₂, back, recursive, last, rfl⟩ := bind_eq_some.mp later
      cases last
      obtain ⟨regs₁, silent, stands⟩ := materialize_silent (w := w) made holds
        holds.kind_eq_float
      rw [holds.kind_eq] at stands
      have others := others.imp fun _ _ holds => holds.later silent.grows silent.keeps
      obtain ⟨regs₂, silent', all⟩ := ih recursive others
      refine ⟨regs₂, by simpa using silent.trans silent', .cons ?_ all⟩
      exact ⟨holds.kind_eq, stands.later silent'.grows silent'.keeps⟩

/-- Operands that stand for arguments have their values. -/
theorem numbers?_eq_some {next : Nat} {entries : List Entry} {operands : List (Kind × Operand)}
    (all : List.Forall₂ (fun argument e => argument.1 = (w.argument e).kind ∧
      Stands regs next argument.2 (.number (w.argument e))) operands entries) :
    Operand.numbers? regs operands = some (entries.map w.argument) := by
  unfold Operand.numbers?
  induction all with
  | nil => rfl
  | @cons argument e operands entries stands _ ih =>
    obtain ⟨kind, operand⟩ := argument
    obtain ⟨rfl, stands⟩ := stands
    simp only [List.mapM_cons, stands.number?_eq, ih]
    rfl

/-- An operator is applied to what the two topmost entries count as in its kind. -/
theorem binary_runs {op : Operator} {kind : Kind} {result : Register} {stack : List Entry}
    (done : binary op kind m = some (result, code, m')) (represents : Represents regs m stack)
    (kept : ∀ v ∈ m.stack.take 2, v.isFloat = true → kind = .float) :
    ∃ right left below, stack = right :: left :: below ∧ ∃ regs' k, result = .numbered k ∧
      m'.next = k + 1 ∧ List.Forall₂ (Holds regs' k) m'.stack below ∧
      ∀ s : w.State, run w code regs s =
        match w.operate op kind (w.convert left kind) (w.convert right kind) with
        | some e => (.next, regs'.set result e.word, s)
        | none => (.undefined, regs', s) := by
  obtain ⟨y, front, m₁, rest, first, later, rfl⟩ := bind_eq_some.mp done
  obtain ⟨x, middle, m₂, back, second, last, rfl⟩ := bind_eq_some.mp later
  cases last
  obtain ⟨v, right, stack, values, rfl, regs₁, silent₁, represents, stands₁⟩ :=
    popAs_silent (w := w) represents
      (fun v member => kept v (List.take_subset_take_left _ (by omega) member)) first
  obtain ⟨v', left, below, values', rfl, regs₂, silent₂, represents, stands₂⟩ :=
    popAs_silent (w := w) represents (fun v member => kept v (by simp_all)) second
  have stands₁ := stands₁.later silent₂.grows silent₂.keeps
  refine ⟨right, left, below, rfl, regs₂, m₂.next, rfl, rfl, represents, fun s => ?_⟩
  rw [silent₁.run_append, silent₂.run_append]
  simp only [List.nil_append, List.append_nil, run, Instr.step, stands₁.1, stands₂.1,
    Word.as?_number]
  rcases w.operate op kind (w.convert left kind) (w.convert right kind) with - | e <;> rfl

/-- A value that is made usable as a condition stands for whether its entry counts as true. -/
theorem condition_silent {value : Value} {e : Entry} {operand : Operand}
    (done : condition value m = some (operand, code, m')) (holds : Holds regs m.next value e) :
    ∃ regs', Silent w code regs regs' m.next m'.next ∧
      Stands regs' m'.next operand (.flag (w.truth e)) := by
  -- A number of any form stands for its value, and is compared with the zero of its kind.
  have compared {operand : Operand} {kind : Kind} {value : kind.Carrier}
      (held : operand.word regs = .number ⟨kind, value⟩) (s : w.State) :
      (Instr.binary (.numbered m.next) (.compare .notEqual) kind operand (.zero kind)).step w regs s =
        (.next, regs.set (.numbered m.next) (.flag (w.truth (.number ⟨kind, value⟩))), s) := by
    have zero : (Operand.zero kind).word regs = .number ⟨kind, World.zero kind⟩ := by
      cases kind <;> rfl
    simp [Instr.step, held, zero, World.operate, Entry.word, World.truth]
  cases holds with
  | int fits | float value =>
    cases done
    exact ⟨_, .assign (compared rfl), .assigned regs _ _⟩
  | number below held =>
    cases done
    exact ⟨_, .assign (compared held), .assigned regs _ _⟩
  | @flag k _ kind below held =>
    cases done
    refine ⟨regs, .none _ _, held, ?_⟩
    rintro r ⟨⟩
    exact ⟨k, below, rfl⟩

end Step

end Tac

namespace Stack.Instr

/-- The kind in which an instruction uses its operands; none if it uses each in its own kind. -/
def usesAs : Instr → Option Kind
  | store symbol => some symbol.kind
  | arith _ kind => some kind
  | compare _ kind => some kind
  | print kind => some kind
  | ret kind => some kind
  | _ => none

/-- Whether an instruction puts no integer on the stack that has more than 32 bits. -/
def fits : Instr → Bool
  | push (.int value) => fitsInt32 value
  | _ => true

/-- For every result of an instruction, whether it is a constant float. -/
def floats : Instr → List Bool
  | push (.float _) => [true]
  | i => List.replicate i.gives false

end Stack.Instr

namespace Tac

open Stack (Frame)

/-- The simulated stack knows which entries are constant floats. -/
theorem floats_generateInstr {i : Stack.Instr} {m m' : Machine} {code : List Instr}
    (done : generateInstr i m = some ((), code, m')) :
    m'.stack.map Value.isFloat = i.floats ++ (m.stack.map Value.isFloat).drop i.takes := by
  cases i with
  | push value => cases value <;> cases done <;> rfl
  | load symbol =>
    cases done
    rfl
  | arith op kind | compare op kind =>
    obtain ⟨result, front, m₁, back, first, last, rfl⟩ := Step.bind_eq_some.mp done
    cases last
    obtain ⟨right, left, stack⟩ := Step.stack_binary first
    rw [stack]
    rfl
  | call function count kind =>
    obtain ⟨values, front, m₁, back, popped, later, rfl⟩ := Step.bind_eq_some.mp done
    obtain ⟨operands, code, m₂, back, made, last, rfl⟩ := Step.bind_eq_some.mp later
    cases last
    obtain ⟨-, rfl, rfl, rfl⟩ := Step.popMany_inv popped
    simp [Step.stack_arguments made, Value.isFloat, Stack.Instr.floats, Stack.Instr.gives,
      Stack.Instr.takes]
  | goto label | slot name =>
    cases done
    rfl
  | branch ifTrue ifFalse =>
    obtain ⟨v, front, m₁, back, popped, later, rfl⟩ := Step.bind_eq_some.mp done
    obtain ⟨operand, middle, m₂, back, made, last, rfl⟩ := Step.bind_eq_some.mp later
    cases last
    rw [Step.stack_pop popped, Step.stack_condition made]
    rfl
  | _ =>
    obtain ⟨operand, front, m₁, back, popped, last, rfl⟩ := Step.bind_eq_some.mp done
    cases last
    obtain ⟨v, stack⟩ := Step.stack_popAs popped
    rw [stack]
    rfl

/-- The code does with the registers what the instruction does with the stack that they stand for. -/
def Simulates (w : World) (i : Stack.Instr) (code : List Instr) (regs : Registers) (m' : Machine)
    (stack : List Entry) (s : w.State) : Prop :=
  ∃ exit f regs', i.step w ⟨stack, s⟩ = (exit, f) ∧ run w code regs s = (exit, regs', f.state) ∧
    exit ≠ .stuck ∧ (exit = .next → Represents regs' m' f.stack)

section Instructions

variable {w : World} {m m' : Machine} {code : List Instr} {regs : Registers} {stack : List Entry}

private theorem arith_simulates {op : Arithmetic} {kind : Kind}
    (done : generateInstr (.arith op kind) m = some ((), code, m'))
    (represents : Represents regs m stack)
    (kept : ∀ v ∈ m.stack.take 2, v.isFloat = true → kind = .float) (s : w.State) :
    Simulates w (.arith op kind) code regs m' stack s := by
  obtain ⟨result, front, m₁, back, first, last, rfl⟩ := Step.bind_eq_some.mp done
  cases last
  obtain ⟨right, left, below, rfl, regs', k, rfl, next, represents, runs⟩ :=
    Step.binary_runs (w := w) first represents kept
  rw [List.append_nil]
  rcases computed : w.compute op kind (w.convert left kind) (w.convert right kind) with - | value
  · refine ⟨.undefined, ⟨below, s⟩, regs', ?_, ?_, by rintro ⟨⟩, by rintro ⟨⟩⟩
    · simp [Stack.Instr.step, Stack.Instr.takes, Stack.Instr.perform, Stack.Instr.perform.operator,
        World.operate, computed]
    · simp [runs, World.operate, computed]
  · refine ⟨.next, ⟨.number ⟨kind, value⟩ :: below, s⟩,
      regs'.set (.numbered k) (.number ⟨kind, value⟩), ?_, ?_, by rintro ⟨⟩, fun _ => ?_⟩
    · simp [Stack.Instr.step, Stack.Instr.takes, Stack.Instr.perform, Stack.Instr.perform.operator,
        World.operate, computed]
    · simp [runs, World.operate, computed, Entry.word]
    · refine .cons ?_ (next ▸ holds_assigned represents _)
      exact .number (next ▸ Nat.lt_succ_self k) (Registers.set_same _ _ _)

private theorem compare_simulates {op : Comparison} {kind : Kind}
    (done : generateInstr (.compare op kind) m = some ((), code, m'))
    (represents : Represents regs m stack)
    (kept : ∀ v ∈ m.stack.take 2, v.isFloat = true → kind = .float) (s : w.State) :
    Simulates w (.compare op kind) code regs m' stack s := by
  obtain ⟨result, front, m₁, back, first, last, rfl⟩ := Step.bind_eq_some.mp done
  cases last
  obtain ⟨right, left, below, rfl, regs', k, rfl, next, represents, runs⟩ :=
    Step.binary_runs (w := w) first represents kept
  rw [List.append_nil]
  refine ⟨.next, _, _, rfl, runs s, by rintro ⟨⟩, fun _ => ?_⟩
  refine .cons ?_ (next ▸ holds_assigned represents _)
  exact .flag kind (next ▸ Nat.lt_succ_self k) (Registers.set_same _ _ _)

private theorem call_simulates {function : String} {count : Nat} {kind : Kind}
    (done : generateInstr (.call function count kind) m = some ((), code, m'))
    (represents : Represents regs m stack) (s : w.State) :
    Simulates w (.call function count kind) code regs m' stack s := by
  obtain ⟨values, front, m₁, back, popped, later, rfl⟩ := Step.bind_eq_some.mp done
  obtain ⟨operands, code, m₂, back, made, last, rfl⟩ := Step.bind_eq_some.mp later
  cases last
  obtain ⟨enough, rfl, rfl, rfl⟩ := Step.popMany_inv popped
  have taken := List.forall₂_reverse_iff.mpr (List.forall₂_take count represents)
  obtain ⟨regs', silent, stands⟩ := Step.arguments_silent (w := w) made taken
  have numbers := Step.numbers?_eq_some stands
  have enough : ¬ stack.length < count := represents.length_eq ▸ enough
  have below := (List.forall₂_drop count represents).imp fun _ _ holds =>
    holds.later silent.grows silent.keeps
  unfold Simulates
  rw [List.nil_append, silent.run_append]
  simp only [List.nil_append, List.append_nil, run_singleton, Instr.step, numbers,
    Stack.Instr.step, Stack.Instr.takes, enough, ↓reduceIte, Stack.Instr.perform]
  rcases s.call function ((stack.take count).reverse.map w.argument) kind with ⟨- | value, t⟩
  · exact ⟨_, _, _, rfl, rfl, by rintro ⟨⟩, by rintro ⟨⟩⟩
  · refine ⟨_, _, _, rfl, rfl, by rintro ⟨⟩, fun _ => .cons ?_ ?_⟩
    · exact .number (Nat.lt_succ_self _) (Registers.set_same _ _ _)
    · rw [Step.stack_arguments made]
      exact holds_assigned below _

private theorem branch_simulates {ifTrue ifFalse : Label}
    (done : generateInstr (.branch ifTrue ifFalse) m = some ((), code, m'))
    (represents : Represents regs m stack) (s : w.State) :
    Simulates w (.branch ifTrue ifFalse) code regs m' stack s := by
  obtain ⟨next, values⟩ := m
  obtain ⟨v, front, m₁, back, popped, later, rfl⟩ := Step.bind_eq_some.mp done
  cases represents with
  | nil => cases popped
  | @cons v e values below holds others =>
    cases popped
    obtain ⟨operand, middle, m₂, back, made, last, rfl⟩ := Step.bind_eq_some.mp later
    cases last
    obtain ⟨regs', silent, stands⟩ := Step.condition_silent (w := w) made holds
    refine ⟨_, _, regs', rfl, ?_, nofun, nofun⟩
    simp [silent.run_append, run_singleton, Instr.step, stands.1]

/-- What is generated for an instruction does what the instruction does. -/
theorem generateInstr_simulates {i : Stack.Instr} (done : generateInstr i m = some ((), code, m'))
    (represents : Represents regs m stack) (fits : i.fits = true)
    (kept : ∀ kind, i.usesAs = some kind →
      ∀ v ∈ m.stack.take i.takes, v.isFloat = true → kind = .float) (s : w.State) :
    Simulates w i code regs m' stack s := by
  cases i with
  | push value =>
    cases value with
    | int value =>
      cases done
      exact ⟨_, _, regs, rfl, rfl, nofun, fun _ => .cons (.int fits) represents⟩
    | float value =>
      cases done
      exact ⟨_, _, regs, rfl, rfl, nofun, fun _ => .cons (.float value) represents⟩
  | load symbol =>
    cases done
    refine ⟨_, _, _, rfl, rfl, nofun, fun _ => .cons ?_ (holds_assigned represents _)⟩
    exact .number (Nat.lt_succ_self _) (Registers.set_same _ _ _)
  | store symbol =>
    obtain ⟨operand, e, below, rfl, regs', represents, number, runs⟩ :=
      Step.popAs_emit_runs (w := w) done represents (kept _ rfl)
    exact ⟨.next, _, regs', rfl, by simp [runs, Instr.step, number], nofun, fun _ => represents⟩
  | arith op kind => exact arith_simulates done represents (kept kind rfl) s
  | compare op kind => exact compare_simulates done represents (kept kind rfl) s
  | call function count kind => exact call_simulates done represents s
  | print kind =>
    obtain ⟨operand, e, below, rfl, regs', represents, number, runs⟩ :=
      Step.popAs_emit_runs (w := w) done represents (kept kind rfl)
    exact ⟨.next, _, regs', rfl, by simp [runs, Instr.step, number], nofun, fun _ => represents⟩
  | ret kind =>
    obtain ⟨operand, e, below, rfl, regs', represents, number, runs⟩ :=
      Step.popAs_emit_runs (w := w) done represents (kept kind rfl)
    exact ⟨_, _, regs', rfl, by simp [runs, Instr.step, number], nofun, nofun⟩
  | goto label =>
    cases done
    exact ⟨_, _, regs, rfl, rfl, nofun, nofun⟩
  | branch ifTrue ifFalse => exact branch_simulates done represents s
  | slot name =>
    cases done
    exact ⟨_, _, regs, rfl, rfl, nofun, fun _ => represents⟩

end Instructions

end Tac

end Wabbit
