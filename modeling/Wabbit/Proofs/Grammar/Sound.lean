import Wabbit.Proofs.Grammar.Taken
import Wabbit.Source.Reader

/-!
Whatever is read without a fault is derived by the grammar. Together with the converse and the
uniqueness of derivations this says what the parser accepts and which tree it gives.
-/

namespace Wabbit.Source

open Parsing Grammar

/-- Tokens that a derivation of the category has. -/
def Category.Derives (category : Category) (tokens : List Token) : Prop :=
  ∃ phrase : Phrase category, phrase.tokens = tokens

open Category

/-- The tokens of a program are read to their end. -/
theorem reads_program (program : Phrase .statements) :
    Reads (Grammar.program program.tokens.length) program.tokens
      (fun statements => Stmt.bareAll statements = program.tree) [] := by
  have reads := (program.complete program.tokens.length [] (Nat.le_refl _) (ends_nil _)
    program.tokens.length (Nat.le_refl _)).reads
  rw [List.append_nil] at reads
  exact reads.skipRight Reads.finished

section Parse

variable (source : String) {tokens : List (Token × Span)}

/-- Tokens that make up a program are read without a fault, and what is read is its tree. -/
theorem parse_of_derives (program : Phrase .statements)
    (same : program.tokens = tokens.map Prod.fst) :
    ∃ statements, outcome? (parse source tokens) = some statements ∧
      faults (parse source tokens) = [] ∧ Stmt.bareAll statements = program.tree := by
  have length_same : program.tokens.length = tokens.length := by rw [same, List.length_map]
  obtain ⟨s, done, clean, tree, -⟩ := reads_program program (.ofList tokens (endOf source))
    same.symm
  rw [length_same] at done
  exact ⟨s.value, by rw [parse, done, outcome?], by rw [parse, done, faults, clean], tree⟩

/-- What is read without a fault is the tree of the tokens, and its nodes fit into them. -/
theorem places_of_parse {statements : List Stmt}
    (read : outcome? (parse source tokens) = some statements)
    (clean : faults (parse source tokens) = []) : Category.statements.Places tokens statements := by
  match done : parse source tokens with
  | .failed recorded fault =>
    rw [done] at read
    cases read
  | .done s =>
    rw [done, outcome?, Option.some.injEq] at read
    rw [done] at clean
    obtain ⟨word, passes, placed, none⟩ := takes_program tokens.length _ s done clean
    have ahead := passes.ahead
    rw [none, List.append_nil] at ahead
    obtain rfl : tokens = word := ahead
    exact read ▸ placed

/-- Tokens that are read without a fault make up a program. -/
theorem derives_of_parse {statements : List Stmt}
    (read : outcome? (parse source tokens) = some statements)
    (clean : faults (parse source tokens) = []) :
    Category.statements.Derives (tokens.map Prod.fst) := by
  obtain ⟨phrase, same, -⟩ := (places_of_parse source read clean).derived
  exact ⟨phrase, same⟩

end Parse

/-- The parser accepts exactly what the grammar derives: tokens that make up a program are read
without a fault, no others are, the derivation is unique, and what is read is its tree. -/
theorem parse_iff_derives (source : String) (tokens : List (Token × Span)) :
    ((∃ statements, outcome? (parse source tokens) = some statements ∧
        faults (parse source tokens) = []) ↔
      ∃ program : Phrase .statements, program.tokens = tokens.map Prod.fst) ∧
    (∀ program program' : Phrase .statements, program.tokens = tokens.map Prod.fst →
      program'.tokens = tokens.map Prod.fst → program = program') ∧
    ∀ (statements : List Stmt) (program : Phrase .statements),
      outcome? (parse source tokens) = some statements → faults (parse source tokens) = [] →
      program.tokens = tokens.map Prod.fst → Stmt.bareAll statements = program.tree := by
  refine ⟨⟨?_, ?_⟩, ?_, ?_⟩
  · rintro ⟨statements, read, clean⟩
    exact derives_of_parse source read clean
  · rintro ⟨program, same⟩
    obtain ⟨statements, read, clean, -⟩ := parse_of_derives source program same
    exact ⟨statements, read, clean⟩
  · intro program program' same same'
    have both : program.tokens ++ [] = program'.tokens ++ [] := by rw [same, same']
    exact (program.unique program' [] [] both (ends_nil _) (ends_nil _)).1
  · intro statements program read _ same
    obtain ⟨statements', read', -, tree⟩ := parse_of_derives source program same
    rw [read', Option.some.injEq] at read
    rw [← read, tree]

/-- Products are formed before sums: `print 1 + 2 * 3;`. -/
theorem parse_iff_derives_product :
    let tokens : List (Token × Span) := [.kwPrint, .int 1, .plus, .int 2, .star, .int 3,
      .semicolon].map (·, {})
    ∃ statements, outcome? (parse "" tokens) = some statements ∧ faults (parse "" tokens) = [] ∧
      Stmt.bareAll statements = [.print (.binary (.arithmetic .add) (.int 1 {})
        (.binary (.arithmetic .mul) (.int 2 {}) (.int 3 {}) {}) {}) {}] := by
  intro tokens
  let one : Phrase (.expr (.chain .product)) := .chain (.unary 0 (.int 1)) .noLinks
  let six : Phrase (.expr (.chain .product)) :=
    .chain (.unary 0 (.int 2)) (.link .mul rfl (.unary 0 (.int 3)) .noLinks)
  let program : Phrase .statements :=
    .statements (.print (.sum (.chain one (.link .add rfl six .noLinks)))) .noStatements
  obtain ⟨accepts, -, tree⟩ := parse_iff_derives "" tokens
  obtain ⟨statements, read, clean⟩ := accepts.mpr ⟨program, rfl⟩
  exact ⟨statements, read, clean, tree statements program read clean rfl⟩

end Wabbit.Source
