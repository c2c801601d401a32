import Wabbit.Proofs.Kinds.Expressions
import Wabbit.Proofs.Meaning.Integers

/-!
What an expression means, apart from the code that is made of it: its value, the variables it reads
and the functions it calls. What the operators make of values is left open, so that expressions can
be compared under the rules of the language and under those of emitted code.
-/

namespace Wabbit

open Ast
open Tac (Address)

/-- What the operators make of values of a kind, where that is defined. -/
structure Rules where
  arithmetic : Arithmetic → (kind : Kind) → kind.Carrier → kind.Carrier → Option kind.Carrier
  negation : (kind : Kind) → kind.Carrier → Option kind.Carrier

/-- The result on 32 bit integers by the rules of the language: the exact result, wrapped around. -/
def Arithmetic.floored (op : Arithmetic) (left right : Int32) : Option Int32 :=
  if op = div ∧ right = 0 then none else some (.ofInt (op.onInt left.toInt right.toInt))

/-- The rules of the language. A negation turns the sign, also that of a zero. -/
def Rules.source : Rules where
  arithmetic op
    | .integer, left, right => op.floored left right
    | .float, left, right =>
      match op with
      | .add => some (Binary64.add left right)
      | .sub => some (Binary64.sub left right)
      | .mul => some (Binary64.mul left right)
      | .div => some (Binary64.div left right)
  negation
    | .integer, value => some (Int32.neg value)
    | .float, value => some (Binary64.neg value)

/-- The rules of emitted instructions. There is none for a negation: the compiler writes a difference
from zero for it before. -/
def World.emitted (w : World) : Rules where
  arithmetic := w.compute
  negation kind := w.compute .sub kind (zero kind)

/-- What an operator makes of two entries that are used in the given kind. -/
def Rules.apply (rules : Rules) (w : World) (op : Arithmetic) (kind : Kind) (left right : Entry) :
    Option Entry :=
  (rules.arithmetic op kind (w.convert left kind) (w.convert right kind)).map
    fun value => .number ⟨kind, value⟩

/-- What a negation makes of an entry that is used in the given kind. -/
def Rules.negate (rules : Rules) (w : World) (kind : Kind) (e : Entry) : Option Entry :=
  (rules.negation kind (w.convert e kind)).map fun value => .number ⟨kind, value⟩

/-- The outcome of comparing two entries in the given kind. -/
def World.compare (w : World) (op : Comparison) (kind : Kind) (left right : Entry) : Entry :=
  .flag (w.holds op kind (w.convert left kind) (w.convert right kind)) kind

theorem Rules.apply_eq_some_iff {rules : Rules} {w : World} {op : Arithmetic} {kind : Kind}
    {x y z : kind.Carrier} :
    rules.apply w op kind (.number ⟨kind, x⟩) (.number ⟨kind, y⟩) = some (.number ⟨kind, z⟩) ↔
      rules.arithmetic op kind x y = some z := by
  cases kind <;> simp [apply, World.convert, World.ofNumber, Option.map_eq_some_iff]

theorem Rules.negate_eq_some_iff {rules : Rules} {w : World} {kind : Kind} {x z : kind.Carrier} :
    rules.negate w kind (.number ⟨kind, x⟩) = some (.number ⟨kind, z⟩) ↔
      rules.negation kind x = some z := by
  cases kind <;> simp [negate, World.convert, World.ofNumber, Option.map_eq_some_iff]

/-- The computation of a value, which may end at something undefined. -/
abbrev World.Evaluation (w : World) (α : Type) := OptionT (StateM w.State) α

/-- What a computation comes to from a state, and the state behind it. -/
def World.outcome {w : World} {α : Type} (x : w.Evaluation α) (s : w.State) : Option α × w.State :=
  x s

section Outcomes

variable {w : World} {α β : Type}

theorem World.outcome_bind (x : w.Evaluation α) (f : α → w.Evaluation β) (s : w.State) :
    outcome (x >>= f) s = match outcome x s with
      | (some a, t) => outcome (f a) t
      | (none, t) => (none, t) := by
  rcases ended : outcome x s with ⟨_ | a, t⟩
  all_goals
    unfold outcome at ended ⊢
    simp [bind, OptionT.bind, OptionT.mk, StateT.bind, ended]
  rfl

theorem World.outcome_bind_eq_some {x : w.Evaluation α} {f : α → w.Evaluation β} {s u : w.State}
    {b : β} : outcome (x >>= f) s = (some b, u) ↔
      ∃ a t, outcome x s = (some a, t) ∧ outcome (f a) t = (some b, u) := by
  rw [outcome_bind]
  rcases outcome x s with ⟨_ | a, t⟩ <;> simp

theorem World.outcome_bind_eq_none {x : w.Evaluation α} {f : α → w.Evaluation β} {s u : w.State} :
    outcome (x >>= f) s = (none, u) ↔ outcome x s = (none, u) ∨
      ∃ a t, outcome x s = (some a, t) ∧ outcome (f a) t = (none, u) := by
  rw [outcome_bind]
  rcases outcome x s with ⟨_ | a, t⟩ <;> simp

/-- Computations that go on alike from every value that is reached are the same. -/
theorem World.bind_congr_of_outcome {x : w.Evaluation α} {f g : α → w.Evaluation β}
    (alike : ∀ s a t, outcome x s = (some a, t) → f a = g a) : x >>= f = x >>= g := by
  funext s
  change outcome (x >>= f) s = outcome (x >>= g) s
  rw [outcome_bind, outcome_bind]
  rcases ended : outcome x s with ⟨_ | a, t⟩
  · rfl
  · exact congrArg (outcome · t) (alike s a t ended)

end Outcomes

/-- A value that is there without any effect, if it is defined. -/
def World.given {α : Type} (w : World) (value : Option α) : w.Evaluation α :=
  OptionT.mk (pure value)

theorem World.given_eq_pure_iff {w : World} [Nonempty w.Store] {α : Type} {value : Option α}
    {a : α} : w.given value = pure a ↔ value = some a := by
  constructor
  · intro same
    obtain ⟨store⟩ := ‹Nonempty w.Store›
    exact congrArg Prod.fst (congrFun same (⟨store, []⟩ : w.State))
  · rintro rfl
    rfl

namespace Ast.Expr

variable {ν : Type} {negation : Prop}

section Evaluation

variable [Named ν] (w : World) (rules : Rules) (place : ν → Address)

mutual

/-- The value of an expression whose names are variables in the given places. Operands are computed
from the left to the right. -/
def evaluate : Expr ν negation → w.Evaluation Entry
  | int value => pure (.number ⟨.integer, value.toInt32⟩)
  | float value => pure (.number ⟨.float, value⟩)
  | name n => do
    let value ← OptionT.lift fun s => s.load (place n) (Named.kind n)
    pure (.number ⟨_, value⟩)
  | arith op left right => do
    let first ← left.evaluate
    let second ← right.evaluate
    w.given (rules.apply w op left.kind first second)
  | compare op left right => do
    let first ← left.evaluate
    let second ← right.evaluate
    pure (w.compare op (left.kind.join right.kind) first second)
  | call function arguments => do
    let values ← evaluateAll arguments
    let value ← OptionT.mk fun s =>
      s.call (Named.text function) (values.map w.argument) (Named.kind function)
    pure (.number ⟨_, value⟩)
  | neg _ inner => do
    let value ← inner.evaluate
    w.given (rules.negate w inner.kind value)

/-- The values of several expressions, computed one after the other. -/
def evaluateAll : List (Expr ν negation) → w.Evaluation (List Entry)
  | [] => pure []
  | e :: rest => do
    let first ← e.evaluate
    let others ← evaluateAll rest
    pure (first :: others)

end

end Evaluation

mutual

/-- An expression and all expressions inside of it. -/
def parts : Expr ν negation → List (Expr ν negation)
  | int value => [.int value]
  | float value => [.float value]
  | name n => [.name n]
  | arith op left right => .arith op left right :: (left.parts ++ right.parts)
  | compare op left right => .compare op left right :: (left.parts ++ right.parts)
  | call function arguments => .call function arguments :: allParts arguments
  | neg allowed inner => .neg allowed inner :: inner.parts

def allParts : List (Expr ν negation) → List (Expr ν negation)
  | [] => []
  | e :: rest => e.parts ++ allParts rest

end

theorem self_mem_parts (e : Expr ν negation) : e ∈ e.parts := by
  cases e <;> simp [parts]

mutual

theorem parts_trans {c d e : Expr ν negation} (inner : c ∈ d.parts) (outer : d ∈ e.parts) :
    c ∈ e.parts := by
  cases e with
  | arith op left right | compare op left right =>
    simp only [parts, List.mem_cons, List.mem_append] at outer
    rcases outer with rfl | inLeft | inRight
    · exact inner
    · simp [parts, parts_trans inner inLeft]
    · simp [parts, parts_trans inner inRight]
  | call function arguments =>
    simp only [parts, List.mem_cons] at outer
    rcases outer with rfl | inside
    · exact inner
    · simp [parts, allParts_trans inner inside]
  | neg allowed e =>
    simp only [parts, List.mem_cons] at outer
    rcases outer with rfl | inside
    · exact inner
    · simp [parts, parts_trans inner inside]
  | _ =>
    simp only [parts, List.mem_singleton] at outer
    rw [← outer]
    exact inner

theorem allParts_trans {c d : Expr ν negation} {es : List (Expr ν negation)} (inner : c ∈ d.parts)
    (outer : d ∈ allParts es) : c ∈ allParts es := by
  cases es with
  | nil => cases outer
  | cons e rest =>
    simp only [allParts, List.mem_append] at outer ⊢
    rcases outer with own | other
    · exact .inl (parts_trans inner own)
    · exact .inr (allParts_trans inner other)

end

section Kinds

variable [Named ν]

mutual

theorem isKinded_of_mem_parts {d e : Expr ν negation} (kinded : e.isKinded = true)
    (inside : d ∈ e.parts) : d.isKinded = true := by
  cases e with
  | arith op left right =>
    simp only [parts, List.mem_cons, List.mem_append] at inside
    rcases inside with rfl | inLeft | inRight
    · exact kinded
    · simp only [isKinded, Bool.and_eq_true] at kinded
      exact isKinded_of_mem_parts kinded.1.2 inLeft
    · simp only [isKinded, Bool.and_eq_true] at kinded
      exact isKinded_of_mem_parts kinded.2 inRight
  | compare op left right =>
    simp only [parts, List.mem_cons, List.mem_append] at inside
    rcases inside with rfl | inLeft | inRight
    · exact kinded
    · simp only [isKinded, Bool.and_eq_true] at kinded
      exact isKinded_of_mem_parts kinded.1 inLeft
    · simp only [isKinded, Bool.and_eq_true] at kinded
      exact isKinded_of_mem_parts kinded.2 inRight
  | call function arguments =>
    simp only [parts, List.mem_cons] at inside
    rcases inside with rfl | inside
    · exact kinded
    · exact isKinded_of_mem_allParts kinded inside
  | neg allowed inner =>
    simp only [parts, List.mem_cons] at inside
    rcases inside with rfl | inside
    · exact kinded
    · exact isKinded_of_mem_parts (e := inner) kinded inside
  | _ =>
    simp only [parts, List.mem_singleton] at inside
    rw [inside]
    rfl

theorem isKinded_of_mem_allParts {d : Expr ν negation} {es : List (Expr ν negation)}
    (kinded : allKinded es = true) (inside : d ∈ allParts es) : d.isKinded = true := by
  cases es with
  | nil => cases inside
  | cons e rest =>
    simp only [allKinded, Bool.and_eq_true] at kinded
    simp only [allParts, List.mem_append] at inside
    rcases inside with own | other
    · exact isKinded_of_mem_parts kinded.1 own
    · exact isKinded_of_mem_allParts kinded.2 other

end

end Kinds

end Ast.Expr

end Wabbit
