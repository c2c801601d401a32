import Wabbit.Parsing.Cursor

/-!
Parsers over a sequence of items. A parser that succeeds also hands on a hint: the furthest fault
that it met on the way, which explains a failure right behind it better than the failure itself. A
parser may also go on after an error, and then records the fault.
-/

namespace Wabbit.Parsing

/-- What a parser answers when it has read something. -/
structure Success (σ α : Type) where
  /-- The faults met and left behind. -/
  recorded : List (Fault σ)
  value : α
  /-- The furthest fault met on the way. -/
  hint : Option (Fault σ)
  /-- The place behind what was read. -/
  rest : Cursor σ

/-- What a parser answers. -/
inductive Reply (σ α : Type) where
  | done (success : Success σ α)
  | failed (recorded : List (Fault σ)) (fault : Fault σ)

/-- A reader of a part of the input. -/
abbrev Parser (σ α : Type) := Cursor σ → Reply σ α

namespace Parser

variable {σ α β γ : Type}

def map (f : α → β) (p : Parser σ α) : Parser σ β := fun cursor =>
  match p cursor with
  | .done s => .done ⟨s.recorded, f s.value, s.hint, s.rest⟩
  | .failed recorded fault => .failed recorded fault

/-- Gives the span of all that was read to the value. -/
def spanned (p : Parser σ (Span → α)) : Parser σ α := fun cursor =>
  match p cursor with
  | .done s => .done ⟨s.recorded, s.value (s.rest.since cursor), s.hint, s.rest⟩
  | .failed recorded fault => .failed recorded fault

/-- Refuses some of the values that were read. -/
def refine (f : α → Except Refusal β) (p : Parser σ α) : Parser σ β := fun cursor =>
  match p cursor with
  | .done s =>
    match f s.value with
    | .ok value => .done ⟨s.recorded, value, s.hint, s.rest⟩
    | .error cause =>
      .failed s.recorded ⟨s.rest.index, s.rest.since cursor, .refused cause, [], none⟩
  | .failed recorded fault => .failed recorded fault

/-- Reads one item, if `f` takes it. -/
def item (f : σ → Option α) : Parser σ α := fun cursor =>
  match cursor.peek.bind f with
  | some value => .done ⟨[], value, none, cursor.advance⟩
  | none => .failed [] (cursor.unexpected [])

def satisfy (keep : σ → Bool) : Parser σ σ :=
  item (fun x => if keep x then some x else none)

/-- Reads nothing, at the end of the input only. -/
def finished : Parser σ Unit := fun cursor =>
  match cursor.ahead with
  | [] => .done ⟨[], (), none, cursor⟩
  | _ :: _ => .failed [] (cursor.unexpected [none])

/-- Skips blank items around what is read; what is skipped leaves no hint. -/
def padded (blank : σ → Bool) (p : Parser σ α) : Parser σ α := fun cursor =>
  match p (cursor.skipWhile blank) with
  | .done s => .done { s with rest := s.rest.skipWhile blank }
  | .failed recorded fault => .failed recorded fault

variable [DecidableEq σ]

def exactly : List σ → Parser σ Unit
  | [], cursor => .done ⟨[], (), none, cursor⟩
  | x :: rest, cursor =>
    if cursor.peek = some x then exactly rest cursor.advance
    else .failed [] (cursor.unexpected [some x])

def just (x : σ) : Parser σ Unit := exactly [x]

/-- Reads two things one after the other. -/
def seq (f : α → β → γ) (p : Parser σ α) (q : Parser σ β) : Parser σ γ := fun cursor =>
  match p cursor with
  | .failed recorded fault => .failed recorded fault
  | .done s =>
    match q s.rest with
    | .failed recorded fault => .failed (s.recorded ++ recorded) (fault.after s.hint)
    | .done t =>
      .done ⟨s.recorded ++ t.recorded, f s.value t.value, Fault.weigh s.hint t.hint, t.rest⟩

def both (p : Parser σ α) (q : Parser σ β) : Parser σ (α × β) := seq Prod.mk p q

/-- Reads two things and keeps the second. -/
def skipLeft (p : Parser σ α) (q : Parser σ β) : Parser σ β := seq (fun _ b => b) p q

/-- Reads two things and keeps the first. -/
def skipRight (p : Parser σ α) (q : Parser σ β) : Parser σ α := seq (fun a _ => a) p q

def between (p : Parser σ β) (q : Parser σ γ) (r : Parser σ α) : Parser σ α :=
  skipRight (skipLeft p r) q

/-- Reads something or, where that fails, nothing. -/
def optional (p : Parser σ α) : Parser σ (Option α) := fun cursor =>
  match p cursor with
  | .done s => .done ⟨s.recorded, some s.value, s.hint, s.rest⟩
  | .failed _ fault => .done ⟨[], none, some fault, cursor⟩

/-- Reads the first of two things that is there. If neither is, the fault that got further
counts. -/
def either (p q : Parser σ α) : Parser σ α := fun cursor =>
  match p cursor with
  | .done s => .done s
  | .failed _ first =>
    match q cursor with
    | .done s => .done s
    | .failed _ second => .failed [] (first.furthest second)

/-- Reads the first of several things that is there; `earlier` is the fault of those before. -/
def choiceAfter (earlier : Option (Fault σ)) : List (Parser σ α) → Parser σ α
  | [], cursor => .failed [] (earlier.getD (cursor.unexpected []))
  | p :: rest, cursor =>
    match p cursor with
    | .done s => .done s
    | .failed _ fault => choiceAfter (some (fault.after earlier)) rest cursor

def choice (ps : List (Parser σ α)) : Parser σ α := choiceAfter none ps

/-- Reads on as often as possible, at most `fuel` times, behind what `before` has read. -/
def manyAfter (p : Parser σ α) (before : Success σ Unit) : Nat → Success σ (List α)
  | 0 => ⟨before.recorded, [], before.hint, before.rest⟩
  | fuel + 1 =>
    match p before.rest with
    | .failed recorded fault =>
      let fault := recorded.head?.elim fault (·.after (some fault))
      ⟨before.recorded, [], some (fault.after before.hint), before.rest⟩
    | .done s =>
      let t := manyAfter p
        ⟨before.recorded ++ s.recorded, (), Fault.weigh before.hint s.hint, s.rest⟩ fuel
      { t with value := s.value :: t.value }

/-- Reads something as often as it is there. Every round reads an item at least, so there are no
more rounds than items. -/
def many (p : Parser σ α) : Parser σ (List α) := fun cursor =>
  .done (manyAfter p ⟨[], (), none, cursor⟩ (cursor.ahead.length + 1))

def manyOnce (p : Parser σ α) : Parser σ (List α) := seq List.cons p (many p)

/-- Reads further items of a list behind `before`, each with a separator in front of it. Gives the
items and the fault that ended the list. -/
def separatedAfter (separator : Parser σ β) (p : Parser σ α) (before : Success σ Unit) :
    Nat → Success σ (List α) × Option (Fault σ)
  | 0 => (⟨before.recorded, [], before.hint, before.rest⟩, none)
  | fuel + 1 =>
    match separator before.rest with
    | .failed recorded fault =>
      (⟨before.recorded ++ recorded, [], before.hint, before.rest⟩, some fault)
    | .done comma =>
      let hint := Fault.weigh before.hint comma.hint
      let recorded := before.recorded ++ comma.recorded
      match p comma.rest with
      | .failed more fault => (⟨recorded ++ more, [], hint, before.rest⟩, some fault)
      | .done s =>
        let (t, ending) := separatedAfter separator p
          ⟨recorded ++ s.recorded, (), Fault.weigh hint s.hint, s.rest⟩ fuel
        ({ t with value := s.value :: t.value }, ending)

/-- Reads a list with separators between its items; one more may follow the last item. -/
def separated (separator : Parser σ β) (p : Parser σ α) : Parser σ (List α) := fun cursor =>
  match p cursor with
  | .failed recorded fault => .done ⟨recorded, [], some fault, cursor⟩
  | .done s =>
    let (t, ending) := separatedAfter separator p ⟨s.recorded, (), s.hint, s.rest⟩
      (s.rest.ahead.length + 1)
    let (trailing, rest) : Option (Fault σ) × Cursor σ :=
      match separator t.rest with
      | .failed _ fault => (some fault, t.rest)
      | .done comma => (comma.hint, comma.rest)
    .done ⟨t.recorded, s.value :: t.value, Fault.weigh (Fault.weigh t.hint trailing) ending, rest⟩

end Parser

end Wabbit.Parsing
