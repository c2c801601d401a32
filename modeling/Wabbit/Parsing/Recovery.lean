import Wabbit.Parsing.Parser

/-!
Going on behind a bracketed part of the input that could not be read.
-/

namespace Wabbit.Parsing

/-- A pair of brackets that is skipped as a whole, and another pair that has to be balanced
inside. -/
structure Brackets (σ : Type) where
  opening : σ
  closing : σ
  innerOpening : σ
  innerClosing : σ

/-- How far the search for a closing bracket has come. -/
structure Scan (σ : Type) where
  /-- The spans of the brackets that are open, the innermost first. -/
  opened : List Span := []
  /-- How many inner brackets are open; below zero if too many were closed. -/
  inner : Int := 0
  /-- The fault of the outermost bracket, once it should have been closed. -/
  fault : Option (Fault σ) := none

namespace Brackets

variable {σ : Type} [DecidableEq σ]

/-- The scan with the fault that the outermost bracket is not closed before the place. There is none
while other brackets are open inside it, and only the first one counts. -/
def blame (brackets : Brackets σ) (scan : Scan σ) (cursor : Cursor σ) : Scan σ :=
  match scan.opened, scan.fault with
  | [span], none =>
    let fault : Fault σ :=
      ⟨cursor.index, cursor.here, .unclosed span brackets.opening, [some brackets.closing],
        cursor.peek⟩
    { scan with fault := some fault }
  | _, _ => scan

/-- Counts an item that is neither of the outer brackets. -/
def count (brackets : Brackets σ) (scan : Scan σ) (cursor : Cursor σ) (x : σ) : Scan σ :=
  if x = brackets.innerOpening then { scan with inner := scan.inner + 1 }
  else if x = brackets.innerClosing then
    let closed := { scan with inner := scan.inner - 1 }
    if closed.inner < 0 then brackets.blame closed cursor else closed
  else scan

/-- Looks for the bracket that closes the one at the place. Gives the place behind it, if there is
one, and the fault of an open bracket, if one was met. -/
def skip (brackets : Brackets σ) :
    List (σ × Span) → Cursor σ → Scan σ → Option (Cursor σ) × Option (Fault σ)
  | [], cursor, scan => (none, (brackets.blame scan cursor).fault)
  | x :: rest, cursor, scan =>
    if x.1 = brackets.opening then
      brackets.skip rest cursor.advance { scan with opened := x.2 :: scan.opened }
    else if x.1 = brackets.closing then
      match scan.opened with
      | [] => (none, scan.fault)
      | [_] => (some cursor.advance, scan.fault)
      | _ :: outer => brackets.skip rest cursor.advance { scan with opened := outer }
    else if scan.opened.isEmpty then (none, scan.fault)
    else brackets.skip rest cursor.advance (brackets.count scan cursor x.1)

end Brackets

/-- Where `p` fails at a bracketed part that is closed, records its faults and goes on behind that
part with the value `fallback`. -/
def Parser.recovering {σ α : Type} [DecidableEq σ] (brackets : Brackets σ) (fallback : α)
    (p : Parser σ α) : Parser σ α := fun cursor =>
  match p cursor with
  | .done s => .done s
  | .failed recorded fault =>
    let (place, extra) := brackets.skip cursor.ahead cursor {}
    let recorded := recorded ++ extra.toList
    match place with
    | none => .failed recorded fault
    | some rest =>
      let unseen := recorded.getLast?.all (fun last => fault.index < last.index)
      .done ⟨if unseen then recorded ++ [fault] else recorded, fallback, none, rest⟩

end Wabbit.Parsing
