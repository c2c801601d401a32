import Wabbit.Parsing.Fault

/-!
A place in a sequence of items that each know the part of the source text they were read from.
-/

namespace Wabbit.Parsing

/-- A place in the input. -/
structure Cursor (σ : Type) where
  /-- The number of items before the place. -/
  index : Nat
  /-- The span of the item just before the place. -/
  reached : Span
  /-- The items from the place on. -/
  ahead : List (σ × Span)
  /-- The span of the end of the input. -/
  finish : Span

namespace Cursor

variable {σ : Type}

def ofList (items : List (σ × Span)) (finish : Span) : Cursor σ := ⟨0, finish, items, finish⟩

def peek (cursor : Cursor σ) : Option σ := cursor.ahead.head?.map Prod.fst

/-- The span of the item at the place, or of the end of the input. -/
def here (cursor : Cursor σ) : Span :=
  match cursor.ahead with
  | [] => cursor.finish
  | item :: _ => item.2

/-- The place behind the next item. -/
def advance (cursor : Cursor σ) : Cursor σ :=
  match cursor.ahead with
  | [] => cursor
  | item :: rest => { cursor with index := cursor.index + 1, reached := item.2, ahead := rest }

/-- The span of all that was read since `start`, or of the next item if nothing was. -/
def since (cursor start : Cursor σ) : Span :=
  ⟨start.here.start, if start.index < cursor.index then cursor.reached.stop else start.here.stop⟩

/-- The place behind all items at the front that satisfy a predicate. -/
def skipWhile (keep : σ → Bool) (cursor : Cursor σ) : Cursor σ :=
  go cursor.ahead cursor
where
  go : List (σ × Span) → Cursor σ → Cursor σ
    | [], cursor => cursor
    | item :: rest, cursor => if keep item.1 then go rest cursor.advance else cursor

/-- The fault that the item at the place is not one of those expected. -/
def unexpected (cursor : Cursor σ) (expected : List (Option σ)) : Fault σ :=
  ⟨cursor.index, cursor.here, .unexpected, expected, cursor.peek⟩

end Cursor

end Wabbit.Parsing
