import Wabbit.Span

/-!
What a parser has to say about input that does not fit. Faults remember how far they got, so that of
several ways in which reading failed the one that got furthest is told; faults at the same place are
merged, and what any of them expected there is told together.
-/

namespace Wabbit.Parsing

/-- Input that has the right form and is refused all the same. -/
inductive Refusal where
  /-- An integer literal of more than 32 bits. -/
  | integerTooLarge
  /-- A variable declared with neither a kind nor a value. -/
  | bareVariable (name : String)
  deriving DecidableEq, Repr

/-- Why a parser stopped. -/
inductive Reason (σ : Type) where
  | unexpected
  | unclosed (opened : Span) (delimiter : σ)
  | refused (cause : Refusal)
  deriving DecidableEq, Repr

namespace Reason

/-- Whether a delimiter was left open. -/
def isUnclosed {σ : Type} : Reason σ → Bool
  | unclosed _ _ => true
  | _ => false

end Reason

/-- A place in the input at which reading stopped. -/
structure Fault (σ : Type) where
  /-- The number of items before the place. -/
  index : Nat
  span : Span
  reason : Reason σ
  /-- The items that could have followed; `none` is the end of the input. -/
  expected : List (Option σ)
  /-- The item that was met; `none` is the end of the input. -/
  found : Option σ
  deriving DecidableEq, Repr

namespace Fault

variable {σ : Type} [DecidableEq σ]

/-- The first fault, together with what the second one expected. An open delimiter is the more
important reason. -/
def merge (a b : Fault σ) : Fault σ :=
  { a with
    reason := if b.reason.isUnclosed ∧ ¬ a.reason.isUnclosed then b.reason else a.reason
    expected := a.expected ++ b.expected.filter (fun item => item ∉ a.expected) }

/-- The fault that got further, or both merged if they got equally far. -/
def furthest (a b : Fault σ) : Fault σ :=
  if b.index < a.index then a else if a.index < b.index then b else a.merge b

/-- The fault, or an earlier one that got further. -/
def after (fault : Fault σ) : Option (Fault σ) → Fault σ
  | none => fault
  | some earlier => fault.furthest earlier

/-- A later fault, if there is one, weighed against an earlier one. -/
def weigh (earlier : Option (Fault σ)) : Option (Fault σ) → Option (Fault σ)
  | none => earlier
  | some fault => some (fault.after earlier)

end Fault

end Wabbit.Parsing
