import Wabbit.Proofs.Grammar.Sound
import Wabbit.Proofs.Reading.Errors
import Wabbit.Proofs.Typing.Blame

/-!
The spans of a source tree. Statements, names, numbers and calls take the span of their tokens,
operators and signs go from one operand to the other, and parentheses around an expression are left
out of its span. However these are mixed, a node contains what stands below it, and its children
follow each other. Main statement: this holds of every node of an accepted text, and the type checker
blames the span of a statement or an expression of it.
-/

namespace Wabbit.Source

open Parsing

/-- How a node lies in a text and among its tokens: its span is a range of bytes, contains those of
all nodes below it, and its children follow each other. A statement goes from the first to the last of
the tokens that it was read from. -/
structure Node.Lies (source : String) (tokens : List (Token × Span)) (node : Node) : Prop where
  nonempty : node.span.start < node.span.stop
  inside : node.span.stop ≤ source.utf8ByteSize
  contains : ∀ below, node.Has below → node.span.Contains below.span
  apart : node.children.Pairwise fun a b => a.span.stop ≤ b.span.start
  stands : ∀ s, node = .statement s → s.Stands tokens

/-- Every node of the program lies in the text, its statements follow each other, and what does not
have the right kind is one of its statements or expressions. -/
structure IsNested (source : String) (program : List Stmt) : Prop where
  lies : ∃ tokens, outcome? (lex source) = some tokens ∧
    ∀ node : Node, node.In program → node.Lies source tokens
  apart : program.Pairwise fun a b => a.span.stop ≤ b.span.start
  blamed : ∀ error, Typing.check program = .error error → Marks program error.span

private theorem Node.contains_of_has {tokens : List (Token × Span)} {root node : Node}
    (nests : ∀ below, root.Has below → below.Nests tokens) (has : root.Has node) :
    root.span.Contains node.span := by
  induction has with
  | self => exact ⟨Nat.le_refl _, Nat.le_refl _⟩
  | child has member ih => exact ih.trans ((nests _ has).contains _ member)

/-- Nodes that fit into the tokens of a text lie in the text. -/
theorem Fits.lies {source : String} {tokens : List (Token × Span)} {roots : List Node}
    {root node : Node} (fits : Fits tokens roots)
    (bounded : ∀ item ∈ tokens, item.2.stop ≤ source.utf8ByteSize) (member : root ∈ roots)
    (has : root.Has node) : node.Lies source tokens := by
  have nests := fits.nests root member
  obtain ⟨-, last, known, stop⟩ := fits.within root member
  obtain ⟨-, before⟩ := Node.contains_of_has nests has
  refine ⟨(nests node has).nonempty, ?_, ?_, (nests node has).apart, (nests node has).stands⟩
  · calc node.span.stop
      _ ≤ root.span.stop := before
      _ ≤ last.2.stop := stop
      _ ≤ source.utf8ByteSize := bounded last known
  · exact fun below has' => Node.contains_of_has (fun _ further => nests _ (has.trans further)) has'

/-- The spans of an accepted text nest: every node lies in the text and among its tokens, and errors
of the type checker point to nodes. -/
theorem read_nested {source : String} {program : List Stmt} (accepted : read source = .ok program) :
    IsNested source program := by
  obtain ⟨tokens, ⟨lexed, lexed_clean⟩, parsed, parsed_clean⟩ := read_eq_ok_iff.mp accepted
  obtain ⟨ordered, inside⟩ := (tiles_of_lex lexed lexed_clean).inside
  have fits : Fits tokens (program.map .statement) :=
    (places_of_parse source parsed parsed_clean).fits
      ⟨ordered, fun item member => (inside item member).1⟩
  refine ⟨⟨tokens, lexed, ?_⟩, List.pairwise_map.mp fits.apart, ?_⟩
  · rintro node ⟨s, member, has⟩
    exact fits.lies (fun item known => (inside item known).2) (List.mem_map_of_mem member) has
  · intro error failed
    have blames := Typing.Blames.check program
    rw [failed] at blames
    cases blames with
    | error marks => exact marks

/-- A sum between parentheses whose operands stand in parentheses of their own, behind a character of
two bytes. -/
theorem read_nested_parentheses :
    let source := "// \u00e9\nprint (-(1) + (y));"
    ∃ program, read source = .ok program ∧ program.map Stmt.span = [⟨6, 25⟩] ∧
      Typing.check program = .error (.undeclared "y" ⟨21, 22⟩) ∧ IsNested source program := by
  intro source
  have known : (read source).toOption.map (fun program => (program.map Stmt.span,
      match Typing.check program with
      | .ok _ => none
      | .error error => some error)) = some ([⟨6, 25⟩], some (.undeclared "y" ⟨21, 22⟩)) := by
    decide +kernel
  obtain ⟨program, accepted, same⟩ := Option.map_eq_some_iff.mp known
  have accepted := Success.toOption_eq_some.mp accepted
  obtain ⟨spans, failed⟩ := Prod.mk.inj same
  refine ⟨program, accepted, spans, ?_, read_nested accepted⟩
  cases checked : Typing.check program with
  | ok script => simp [checked] at failed
  | error error =>
    rw [checked, Option.some.injEq] at failed
    rw [failed]

end Wabbit.Source
