import Wabbit.Compiler
import Wabbit.Proofs.Grammar.Leaves
import Wabbit.Proofs.Grammar.Sound
import Wabbit.Proofs.Printing.Text
import Wabbit.Proofs.Reading.Errors

/-!
The listing of an accepted program is source text again. Reading it gives the syntax tree that the
program was made from, except that the kinds which the program was given replace those that were
written: a variable with a value needs none, and a function always states its result's.
-/

namespace Wabbit

open Ast Parsing

namespace Source

/-- Text that writes down tokens is cut into these tokens. -/
theorem lex_of_writes {source : String} {tokens : List Token}
    (writes : Token.Writes source.toList tokens)
    (spelled : ∀ token ∈ tokens, token.isSpelled = true) :
    ∃ located, (outcome? (lex source) = some located ∧ faults (lex source) = []) ∧
      located.map Prod.fst = tokens := by
  obtain ⟨s, done, clean, same, -⟩ := writes.reads_tokens spelled
    (.ofList (Token.located 0 source.toList) (endOf source)) (Token.map_fst_located 0 _)
  exact ⟨s.value, by simp [lex, done, outcome?, faults, clean], same⟩

/-- All tokens of a text are read again from their own text, apart from those with a fraction. -/
theorem lex_spelled {source : String} {tokens : List (Token × Span)}
    (lexed : outcome? (lex source) = some tokens)
    (whole : ∀ value, Token.float value ∉ tokens.map Prod.fst) :
    ∀ token ∈ tokens.map Prod.fst, token.isSpelled = true := by
  intro token member
  obtain ⟨located, inside, rfl⟩ := List.mem_map.mp member
  have each := outcome?_yields (Token.tokens_areLexed fun _ => True) (fun _ _ => trivial) lexed
  rcases each located inside with spelled | ⟨value, same⟩
  · exact spelled
  · rw [same] at member
    exact absurd member (whole value)

end Source

/-- What is not a name or a number is always read again from its own text. -/
theorem Token.isSpelled_of_not_isLeaf {token : Token} (other : token.isLeaf = false) :
    token.isSpelled = true := by
  cases token with
  | int value => cases other
  | float value => cases other
  | ident name => cases other
  | _ => rfl

/-- The tokens of a derivation are read again from their own text if its names and numbers are. -/
theorem Source.Phrase.spelled_of_leaves {category : Category} {phrase : Phrase category}
    (spelled : ∀ token ∈ category.leaves phrase.tree, token.isSpelled = true) :
    ∀ token ∈ phrase.tokens, token.isSpelled = true := by
  intro token member
  cases leaf : token.isLeaf with
  | true =>
    apply spelled
    rw [phrase.leaves_tree]
    exact List.mem_filter.mpr ⟨member, leaf⟩
  | false => exact Token.isSpelled_of_not_isLeaf leaf

/-- The listing of an accepted program without fractions is accepted by the reader, and it gives the
tree of the text with the kinds that the program was given. -/
theorem read_listing {source : String} {script : Parsed} (accepted : frontEnd source = .ok script)
    (whole : ∀ tokens, Source.outcome? (Source.lex source) = some tokens →
      ∀ value, Token.float value ∉ tokens.map Prod.fst) :
    ∃ original reread, Source.read source = .ok original ∧
      Source.read script.text = .ok reread ∧
      Source.Stmt.settledAll original script = some (Source.Stmt.bareAll reread) := by
  obtain ⟨original, first, second⟩ := Success.bind_eq_ok.mp accepted
  have read := Success.mapError_eq_ok.mp first
  have typed := Success.mapError_eq_ok.mp second
  simp only [Typing.check, Success.bind_eq_ok, Prod.exists] at typed
  obtain ⟨typed, context, checked, _, -, last⟩ := typed
  cases last
  have settled := Typing.tree_checkBlock checked
  obtain ⟨tokens, ⟨lexed, -⟩, parsed, clean⟩ := Source.read_eq_ok_iff.mp read
  -- The names and numbers of the listing are those of the text, so they are read again.
  have spelled : ∀ token ∈ (Stmt.printedAll script).tokens, token.isSpelled = true := by
    obtain ⟨program, same⟩ := Source.derives_of_parse source parsed clean
    obtain ⟨original', parsed', -, tree⟩ := Source.parse_of_derives source program same
    cases parsed.symm.trans parsed'
    apply Source.Phrase.spelled_of_leaves
    intro token member
    change token ∈ Source.Stmt.allLeaves _ at member
    rw [Source.Stmt.allLeaves_settledAll settled, tree] at member
    have own : token ∈ program.tokens := by
      change token ∈ Source.Category.leaves .statements _ at member
      rw [program.leaves_tree] at member
      exact (List.mem_filter.mp member).1
    rw [same] at own
    exact Source.lex_spelled lexed (whole tokens lexed) token own
  obtain ⟨located, relexed, same⟩ := Source.lex_of_writes (Script.writes_text script) spelled
  obtain ⟨reread, reparsed, none, tree⟩ := Source.parse_of_derives (Script.text script) _ same.symm
  refine ⟨original, reread, read, Source.read_eq_ok_iff.mpr ⟨located, relexed, reparsed, none⟩, ?_⟩
  rw [settled, tree]

/-- A kind that is not needed is left out, a kind that was found is written, and parentheses stand
where they decide. -/
theorem read_listing_inferred :
    let source := "func f(a int) \x7b if a < 2 \x7b return -(a - --1) * (3); \x7d else \x7b \x7d " ++
      "return 0; \x7d var x int = 1 + f(2); while x < 3 \x7b x = x + 1; \x7d"
    let listing := "func f(a int) int \x7b\n    if a < 2 \x7b\n        return -(a - --1) * 3;\n    \x7d\n" ++
      "    return 0;\n\x7d\nvar x = 1 + f(2);\nwhile x < 3 \x7b\n    x = x + 1;\n\x7d\n"
    ∃ script original reread, frontEnd source = .ok script ∧ Script.text script = listing ∧
      Source.read source = .ok original ∧ Source.read listing = .ok reread ∧
      Source.Stmt.settledAll original script = some (Source.Stmt.bareAll reread) := by
  intro source listing
  have run : (frontEnd source).toOption.map Script.text = some listing := by decide +kernel
  have spelled : (((Source.outcome? (Source.lex source)).getD []).all
      fun token => token.1.isSpelled) = true := by decide +kernel
  cases accepted : frontEnd source with
  | error rejection =>
    rw [accepted] at run
    cases run
  | ok script =>
    rw [accepted] at run
    have printed : Script.text script = listing := Option.some.inj run
    have whole (tokens : List (Token × Span))
        (lexed : Source.outcome? (Source.lex source) = some tokens) (value : Binary64) :
        Token.float value ∉ tokens.map Prod.fst := by
      intro member
      obtain ⟨token, inside, same⟩ := List.mem_map.mp member
      rw [lexed] at spelled
      have own := List.all_eq_true.mp spelled token inside
      rw [same] at own
      cases own
    obtain ⟨original, reread, read, again, settled⟩ := read_listing accepted whole
    exact ⟨script, original, reread, rfl, printed, read, printed ▸ again, settled⟩

end Wabbit
