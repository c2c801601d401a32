import Wabbit.Stack.Basic
import Wabbit.Proofs.World

/-!
The stack machine at work. How many operands an instruction takes and gives does not depend on
their values, so the height of the stack is known beforehand; what lies below the operands that a
piece of code takes makes no difference to it.
-/

namespace Wabbit.Stack

/-- The number of operands that an instruction takes from the stack. -/
def Instr.takes : Instr → Nat
  | push _ => 0
  | load _ => 0
  | store _ => 1
  | arith _ _ => 2
  | compare _ _ => 2
  | call _ arguments _ => arguments
  | print _ => 1
  | ret _ => 1
  | goto _ => 0
  | branch _ _ => 1
  | slot _ => 0

/-- The number of results that an instruction puts on the stack. -/
def Instr.gives : Instr → Nat
  | push _ => 1
  | load _ => 1
  | arith _ _ => 1
  | compare _ _ => 1
  | call _ _ _ => 1
  | _ => 0

/-- The height of the stack behind some instructions; none if one of them takes more than there
is. -/
def heightAfter : Nat → List Instr → Option Nat
  | height, [] => some height
  | height, i :: rest =>
    if height < i.takes then none else heightAfter (height - i.takes + i.gives) rest

/-- The value of a constant. -/
def Literal.number : Literal → Number
  | int value => ⟨.integer, value.toInt32⟩
  | float value => ⟨.float, value⟩

/-- What an instruction does with its operands, the topmost first: how it ends, its results, and the
state behind it. -/
def Instr.perform (w : World) (operands : List Entry) (s : w.State) :
    Instr → Exit × List Entry × w.State
  | push value => (.next, [.number value.number], s)
  | load symbol =>
    let (value, s) := s.load (.ofSymbol symbol) symbol.kind
    (.next, [.number ⟨symbol.kind, value⟩], s)
  | store symbol =>
    match operands with
    | [e] => (.next, [], s.save (.ofSymbol symbol) ⟨symbol.kind, w.convert e symbol.kind⟩)
    | _ => (.stuck, [], s)
  | arith op kind => operator (.arithmetic op) kind
  | compare op kind => operator (.compare op) kind
  | call function _ kind =>
    match s.call function (operands.reverse.map w.argument) kind with
    | (some value, s) => (.next, [.number ⟨kind, value⟩], s)
    | (none, s) => (.undefined, [], s)
  | print kind =>
    match operands with
    | [e] => (.next, [], s.log (.print ⟨kind, w.convert e kind⟩))
    | _ => (.stuck, [], s)
  | ret kind =>
    match operands with
    | [e] => (.returned ⟨kind, w.convert e kind⟩, [], s)
    | _ => (.stuck, [], s)
  | goto label => (.jump label, [], s)
  | branch ifTrue ifFalse =>
    match operands with
    | [e] => (.branch (w.truth e) (if w.truth e then ifTrue else ifFalse), [], s)
    | _ => (.stuck, [], s)
  | slot name => (.next, [], s.reserve name.text name.kind)
where
  operator (op : Operator) (kind : Kind) : Exit × List Entry × w.State :=
    match operands with
    | [right, left] =>
      match w.operate op kind (w.convert left kind) (w.convert right kind) with
      | some e => (.next, [e], s)
      | none => (.undefined, [], s)
    | _ => (.stuck, [], s)

/-- The operand stack, its top first, and the state of the world. -/
structure Frame (w : World) where
  stack : List Entry
  state : w.State

/-- Carries out an instruction. -/
def Instr.step (w : World) (i : Instr) (f : Frame w) : Exit × Frame w :=
  if f.stack.length < i.takes then (.stuck, f)
  else
    let (exit, results, state) := i.perform w (f.stack.take i.takes) f.state
    (exit, ⟨results ++ f.stack.drop i.takes, state⟩)

/-- Carries out instructions up to the first one that does not lead to the next. -/
def run (w : World) : List Instr → Frame w → Exit × Frame w
  | [], f => (.next, f)
  | i :: rest, f =>
    match i.step w f with
    | (.next, f) => run w rest f
    | ended => ended

/-- Carries out instructions on an empty stack, and drops what they leave there. -/
def runAlone (w : World) (instrs : List Instr) (s : w.State) : Exit × w.State :=
  let (exit, f) := run w instrs ⟨[], s⟩
  (exit, f.state)

/-- What the code of a condition decides, and the state behind it. -/
def Code.decide (w : World) (condition : Code) (s : w.State) : Option (Bool × w.State) :=
  match run w condition.instrs ⟨[], s⟩ with
  | (.next, ⟨e :: _, s⟩) => some (w.truth e, s)
  | _ => none

theorem heightAfter_cons {height final : Nat} {i : Instr} {rest : List Instr} :
    heightAfter height (i :: rest) = some final ↔
      i.takes ≤ height ∧ heightAfter (height - i.takes + i.gives) rest = some final := by
  by_cases missing : height < i.takes
  · simp [heightAfter, missing, Nat.not_le.mpr missing]
  · simp [heightAfter, missing, Nat.not_lt.mp missing]

/-- A higher stack stays higher by the same amount. -/
theorem heightAfter_add {height final : Nat} {instrs : List Instr}
    (known : heightAfter height instrs = some final) (more : Nat) :
    heightAfter (height + more) instrs = some (final + more) := by
  induction instrs generalizing height with
  | nil =>
    cases known
    rfl
  | cons i rest ih =>
    obtain ⟨enough, known⟩ := heightAfter_cons.mp known
    have shifted : height + more - i.takes + i.gives = height - i.takes + i.gives + more := by omega
    refine heightAfter_cons.mpr ⟨by omega, ?_⟩
    rw [shifted]
    exact ih known

theorem heightAfter_append {height middle final : Nat} {front back : List Instr}
    (first : heightAfter height front = some middle)
    (second : heightAfter middle back = some final) :
    heightAfter height (front ++ back) = some final := by
  induction front generalizing height with
  | nil =>
    cases first
    exact second
  | cons i rest ih =>
    obtain ⟨enough, first⟩ := heightAfter_cons.mp first
    exact heightAfter_cons.mpr ⟨enough, ih first⟩

variable {w : World}

theorem run_append (front back : List Instr) (f : Frame w) :
    run w (front ++ back) f =
      match run w front f with
      | (.next, g) => run w back g
      | ended => ended := by
  induction front generalizing f with
  | nil => rfl
  | cons i rest ih =>
    simp only [List.cons_append, run]
    rcases i.step w f with ⟨exit, g⟩
    cases exit with
    | next => exact ih g
    | _ => rfl

/-- An instruction that leads to the next gives as many results as it should. -/
theorem Instr.length_results {i : Instr} {operands : List Entry} {s : w.State}
    (passed : (i.perform w operands s).1 = .next) :
    (i.perform w operands s).2.1.length = i.gives := by
  cases i <;> simp only [perform, perform.operator] at passed ⊢ <;> (repeat' split at passed) <;>
    simp_all [gives]

/-- Only its own operands make a difference to an instruction. -/
theorem Instr.step_append (i : Instr) {stack : List Entry} (enough : i.takes ≤ stack.length)
    (below : List Entry) (s : w.State) :
    i.step w ⟨stack ++ below, s⟩ =
      ((i.step w ⟨stack, s⟩).1, ⟨(i.step w ⟨stack, s⟩).2.stack ++ below,
        (i.step w ⟨stack, s⟩).2.state⟩) := by
  have longer : ¬ (stack ++ below).length < i.takes := by
    simp only [List.length_append]
    omega
  simp only [step, longer, Nat.not_lt.mpr enough, ↓reduceIte, List.take_append_of_le_length enough,
    List.drop_append_of_le_length enough, List.append_assoc]

private theorem Instr.length_step {i : Instr} {f g : Frame w} (enough : i.takes ≤ f.stack.length)
    (passed : i.step w f = (.next, g)) :
    g.stack.length = f.stack.length - i.takes + i.gives := by
  simp only [step, Nat.not_lt.mpr enough, ↓reduceIte, Prod.mk.injEq] at passed
  obtain ⟨exit, rfl⟩ := passed
  simp only [List.length_append, length_results exit, List.length_drop]
  omega

/-- What lies below the operands that some code takes makes no difference to it. -/
theorem run_below {instrs : List Instr} {stack : List Entry} {final : Nat}
    (known : heightAfter stack.length instrs = some final) (below : List Entry) (s : w.State) :
    run w instrs ⟨stack ++ below, s⟩ =
      ((run w instrs ⟨stack, s⟩).1, ⟨(run w instrs ⟨stack, s⟩).2.stack ++ below,
        (run w instrs ⟨stack, s⟩).2.state⟩) := by
  induction instrs generalizing stack s with
  | nil => rfl
  | cons i rest ih =>
    obtain ⟨enough, known⟩ := heightAfter_cons.mp known
    simp only [run, i.step_append enough]
    rcases ended : i.step w ⟨stack, s⟩ with ⟨exit, f⟩
    cases exit with
    | next =>
      rw [← Instr.length_step enough ended] at known
      exact ih known f.state
    | _ => rfl

/-- Code behind other code that leaves its stack alone runs as if on a stack of its own. -/
theorem runAlone_append {back : List Instr} {final : Nat} (front : List Instr)
    (known : heightAfter 0 back = some final) (s : w.State) :
    runAlone w (front ++ back) s =
      match runAlone w front s with
      | (.next, t) => runAlone w back t
      | ended => ended := by
  simp only [runAlone, run_append]
  rcases run w front ⟨[], s⟩ with ⟨exit, stack, t⟩
  cases exit with
  | next =>
    have framed := @run_below w _ [] _ known stack t
    rw [List.nil_append] at framed
    simp only [framed]
  | _ => rfl

private theorem Instr.step_plain {i : Instr} (plain : i.isTerminator = false) (f : Frame w) :
    (i.step w f).1 = .next ∨ (i.step w f).1 = .undefined ∨ (i.step w f).1 = .stuck := by
  unfold step
  split
  · exact .inr (.inr rfl)
  · cases i <;> simp only [perform, perform.operator, isTerminator, Bool.true_eq_false] at plain ⊢ <;>
      (repeat' split) <;> simp_all

/-- Code without a terminator neither returns nor leads anywhere else. -/
theorem run_plain {instrs : List Instr} (plain : ∀ i ∈ instrs, i.isTerminator = false)
    (f : Frame w) :
    (run w instrs f).1 = .next ∨ (run w instrs f).1 = .undefined ∨ (run w instrs f).1 = .stuck := by
  induction instrs generalizing f with
  | nil => exact .inl rfl
  | cons i rest ih =>
    have first := Instr.step_plain (plain i (by simp)) f
    simp only [run]
    rcases ended : i.step w f with ⟨exit, g⟩
    rw [ended] at first
    rcases first with rfl | rfl | rfl
    · exact ih (fun j member => plain j (by simp [member])) g
    · exact .inr (.inl rfl)
    · exact .inr (.inr rfl)

/-- Code that ends in a return does not lead to what follows it, nor to any label. -/
theorem run_returning {front : List Instr} (plain : ∀ i ∈ front, i.isTerminator = false)
    (kind : Kind) (f : Frame w) :
    (run w (front ++ [.ret kind]) f).1 ≠ .next ∧
      (run w (front ++ [.ret kind]) f).1.target? = none := by
  rw [run_append]
  rcases ended : run w front f with ⟨exit, stack, s⟩
  have exits := run_plain plain f
  rw [ended] at exits
  rcases exits with rfl | rfl | rfl
  · cases stack <;> simp [run, Instr.step, Instr.takes, Instr.perform, Exit.target?]
  all_goals exact ⟨nofun, rfl⟩

end Wabbit.Stack
