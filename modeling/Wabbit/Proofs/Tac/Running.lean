import Wabbit.Proofs.World

/-!
Three address code at work. Registers hold numbers or the outcomes of comparisons, and an
instruction gets stuck on an operand of another type than it works with.
-/

namespace Wabbit

/-- What a register holds. -/
inductive Word where
  | number (n : Number)
  | flag (holds : Bool)

namespace Word

/-- The value of a word that is a number of the given kind. -/
def as? : Word → (kind : Kind) → Option kind.Carrier
  | number ⟨.integer, value⟩, .integer => some value
  | number ⟨.float, value⟩, .float => some value
  | _, _ => none

@[simp]
theorem as?_number (kind : Kind) (value : kind.Carrier) :
    (number ⟨kind, value⟩).as? kind = some value := by
  cases kind <;> rfl

end Word

/-- An entry as it is held by a register. -/
def Entry.word : Entry → Word
  | number n => .number n
  | flag holds _ => .flag holds

namespace Tac

/-- What all registers hold. -/
abbrev Registers := Register → Word

/-- Assigns a register. -/
def Registers.set (regs : Registers) (r : Register) (word : Word) : Registers :=
  fun other => if other = r then word else regs other

@[simp]
theorem Registers.set_same (regs : Registers) (r : Register) (word : Word) :
    regs.set r word r = word := by
  simp [set]

/-- What an operand stands for. -/
def Operand.word (regs : Registers) : Operand → Word
  | int value => .number ⟨.integer, value.toInt32⟩
  | float value => .number ⟨.float, value⟩
  | register r => regs r

/-- The number that an operand of the given kind stands for. -/
def Operand.number? (regs : Registers) (operand : Operand) (kind : Kind) : Option Number :=
  ((operand.word regs).as? kind).map fun value => ⟨kind, value⟩

/-- The numbers that arguments of the given kinds stand for. -/
def Operand.numbers? (regs : Registers) (arguments : List (Kind × Operand)) :
    Option (List Number) :=
  arguments.mapM fun argument => argument.2.number? regs argument.1

/-- What a conversion makes of a word of the right type. -/
def Conversion.apply (w : World) : Conversion → Word → Option Number
  | flagToInt, .flag holds => some ⟨.integer, World.ofFlag holds .integer⟩
  | flagToFloat, .flag holds => some ⟨.float, World.ofFlag holds .float⟩
  | intToFloat, .number ⟨.integer, n⟩ => some ⟨.float, w.ofNumber ⟨.integer, n⟩ .float⟩
  | floatToInt, .number ⟨.float, x⟩ => some ⟨.integer, w.ofNumber ⟨.float, x⟩ .integer⟩
  | _, _ => none

/-- Carries out an instruction. -/
def Instr.step (w : World) (regs : Registers) (s : w.State) : Instr → Exit × Registers × w.State
  | binary result op kind left right =>
    match (left.word regs).as? kind, (right.word regs).as? kind with
    | some x, some y =>
      match w.operate op kind x y with
      | some e => (.next, regs.set result e.word, s)
      | none => (.undefined, regs, s)
    | _, _ => (.stuck, regs, s)
  | convert result conversion value =>
    match conversion.apply w (value.word regs) with
    | some n => (.next, regs.set result (.number n), s)
    | none => (.stuck, regs, s)
  | alloca name kind => (.next, regs, s.reserve name kind)
  | load result kind address =>
    let (value, s) := s.load address kind
    (.next, regs.set result (.number ⟨kind, value⟩), s)
  | store kind value address =>
    match value.number? regs kind with
    | some n => (.next, regs, s.save address n)
    | none => (.stuck, regs, s)
  | print kind value =>
    match value.number? regs kind with
    | some n => (.next, regs, s.log (.print n))
    | none => (.stuck, regs, s)
  | ret kind value =>
    match value.number? regs kind with
    | some n => (.returned n, regs, s)
    | none => (.stuck, regs, s)
  | jump label => (.jump label, regs, s)
  | branch condition ifTrue ifFalse =>
    match condition.word regs with
    | .flag holds => (.branch holds (if holds then ifTrue else ifFalse), regs, s)
    | .number _ => (.stuck, regs, s)
  | call result function kind arguments =>
    match Operand.numbers? regs arguments with
    | some values =>
      match s.call function values kind with
      | (some value, s) => (.next, regs.set result (.number ⟨kind, value⟩), s)
      | (none, s) => (.undefined, regs, s)
    | none => (.stuck, regs, s)

/-- Carries out instructions up to the first one that does not lead to the next. -/
def run (w : World) : List Instr → Registers → w.State → Exit × Registers × w.State
  | [], regs, s => (.next, regs, s)
  | i :: rest, regs, s =>
    match i.step w regs s with
    | (.next, regs, s) => run w rest regs s
    | ended => ended

/-- Carries out instructions, and forgets what the registers hold in the end. -/
def runAlone (w : World) (instrs : List Instr) (regs : Registers) (s : w.State) : Exit × w.State :=
  let (exit, _, s) := run w instrs regs s
  (exit, s)

theorem run_singleton {w : World} (i : Instr) (regs : Registers) (s : w.State) :
    run w [i] regs s = i.step w regs s := by
  rcases step : i.step w regs s with ⟨exit, regs', t⟩
  cases exit <;> simp [run, step]

theorem run_append {w : World} (front back : List Instr) (regs : Registers) (s : w.State) :
    run w (front ++ back) regs s =
      match run w front regs s with
      | (.next, regs, s) => run w back regs s
      | ended => ended := by
  induction front generalizing regs s with
  | nil => rfl
  | cons i rest ih =>
    simp only [List.cons_append, run]
    rcases i.step w regs s with ⟨exit, regs, s⟩
    cases exit with
    | next => exact ih regs s
    | _ => rfl

end Tac

end Wabbit
