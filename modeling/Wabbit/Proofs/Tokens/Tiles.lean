import Wabbit.Proofs.Tokens.Lexemes
import Wabbit.Source.Reader

/-!
A text that is cut into tokens without a fault is tiled by the texts of the tokens and by gaps of
white space and comments. The text of one token is tiled by itself alone.
-/

namespace Wabbit.Token

open Parsing Lexer

/-- White space and comments in front of the rest. A comment goes up to the end of its line. -/
inductive Gap (rest : List Char) : List Char → Prop where
  | nil : Gap rest []
  | blank {c : Char} {chars : List Char} (blank : Text.isBlank c = true) (behind : Gap rest chars) :
      Gap rest (c :: chars)
  | comment {line chars : List Char} (inside : ∀ c ∈ line, c ≠ '\n')
      (ended : ∀ c ∈ (chars ++ rest).head?, c = '\n') (behind : Gap rest chars) :
      Gap rest ('/' :: '/' :: (line ++ chars))

/-- Text cut into tokens with their spans and gaps around them. -/
inductive Tiles (rest : List Char) : List (Char × Span) → List (Token × Span) → Prop where
  | gap {word : List (Char × Span)} (gap : Gap rest (word.map Prod.fst)) : Tiles rest word []
  | token {front word behind : List (Char × Span)} {token : Token} {span : Span}
      {tokens : List (Token × Span)}
      (gap : Gap ((word ++ behind).map Prod.fst ++ rest) (front.map Prod.fst))
      (lexeme : Lexeme (word.map Prod.fst) token)
      (longest : Longest (word.map Prod.fst) (behind.map Prod.fst ++ rest))
      (covers : Covers span word) (tiles : Tiles rest behind tokens) :
      Tiles rest (front ++ (word ++ behind)) ((token, span) :: tokens)

section Gaps

variable {chars chars' rest : List Char} {word front back : List (Char × Span)}
  {tokens : List (Token × Span)}

theorem Gap.append (first : Gap (chars' ++ rest) chars) (second : Gap rest chars') :
    Gap rest (chars ++ chars') := by
  induction first with
  | nil => exact second
  | blank blank _ ih => exact .blank blank ih
  | comment inside ended _ ih =>
    rw [List.cons_append, List.cons_append, List.append_assoc]
    exact .comment inside (by rwa [List.append_assoc]) ih

private theorem Gap.blanks (all : ∀ c ∈ chars, Text.isBlank c = true) : Gap rest chars := by
  induction chars with
  | nil => exact .nil
  | cons c chars ih =>
    obtain ⟨blank, all⟩ := List.forall_mem_cons.mp all
    exact .blank blank (ih all)

private theorem Tiles.prepend (gap : Gap (word.map Prod.fst ++ rest) (front.map Prod.fst))
    (tiles : Tiles rest word tokens) : Tiles rest (front ++ word) tokens := by
  cases tiles with
  | gap gap' =>
    refine .gap ?_
    rw [List.map_append]
    exact gap.append gap'
  | token gap' lexeme longest covers tiles =>
    rw [← List.append_assoc]
    refine .token ?_ lexeme longest covers tiles
    simp only [List.map_append, List.append_assoc] at gap gap' ⊢
    exact gap.append gap'

theorem Tiles.append (tiles : Tiles (back.map Prod.fst ++ rest) word tokens)
    (gap : Gap rest (back.map Prod.fst)) : Tiles rest (word ++ back) tokens := by
  induction tiles with
  | gap gap' =>
    refine .gap ?_
    rw [List.map_append]
    exact gap'.append gap
  | token gap' lexeme longest covers _ ih =>
    rw [List.append_assoc, List.append_assoc]
    refine .token ?_ lexeme ?_ covers ih
    · simpa using gap'
    · simpa using longest

end Gaps

section Taken

variable {α : Type} {p : Parser Char α} {language : List (Char × Span) → α → Cursor Char → Prop}

/-- Around what is read, white space is skipped. -/
theorem takes_padded (takes : Takes Cursor.Passes p language) :
    Takes Cursor.Passes (p.padded Text.isBlank) fun word a place => ∃ front inner back middle,
      word = front ++ (inner ++ back) ∧ (∀ rest, Gap rest (front.map Prod.fst)) ∧
        (∀ rest, Gap rest (back.map Prod.fst)) ∧ language inner a middle ∧
          middle.Passes back place := by
  have blanks {items : List (Char × Span)} (all : ∀ item ∈ items, Text.isBlank item.1 = true)
      (rest : List Char) : Gap rest (items.map Prod.fst) := by
    refine .blanks fun c member => ?_
    obtain ⟨item, known, rfl⟩ := List.mem_map.mp member
    exact all item known
  refine takes.padded Cursor.areWays ?_
  intro front back word a place place' inFront behind found passes
  rw [List.map_id] at passes
  rw [List.map_id, List.map_id]
  exact ⟨front, word, back, place, List.append_assoc .., blanks inFront, blanks behind, found,
    passes⟩

private theorem takes_comment : TakesText comment fun chars _ rest => Gap rest chars := by
  have line : TakesText (.skipRight (.exactly ['/', '/']) (.many (.satisfy (fun c => c ≠ '\n'))))
      fun chars _ rest => ∃ line, chars = '/' :: '/' :: line ∧ (∀ c ∈ line, c ≠ '\n') ∧
        ∀ c ∈ rest.head?, c = '\n' := by
    refine (takes_exactly _).seq Cursor.areWays (takes_many_satisfy fun c => c ≠ '\n') ?_
    rintro word _ place word' line place' slashes - ⟨same, inside, ended⟩
    refine ⟨line, by rw [List.map_append, slashes, same]; rfl, ?_, ?_⟩
    · simpa using inside
    · simpa using ended
  refine (takes_padded line).imp ?_
  rintro _ _ place ⟨front, inner, back, middle, rfl, before, behind,
    ⟨line, same, inside, ended⟩, passes⟩
  rw [passes.items] at ended
  rw [List.map_append, List.map_append, same]
  exact (before _).append (.comment inside ended (behind _))

private theorem takes_comments : TakesText (.many comment) fun chars _ rest => Gap rest chars := by
  refine Takes.many Cursor.areWays takes_comment ?_ fun _ => .nil
  intro word _ place rest _ place' found passes more
  rw [passes.items] at found
  rw [List.map_append]
  exact found.append more

/-- Around something with space around it stand gaps. -/
theorem takes_spaced (takes : Takes Cursor.Passes p language) :
    Takes Cursor.Passes (spaced p) fun word a place => ∃ front inner back middle,
      word = front ++ (inner ++ back) ∧
        Gap ((inner ++ back).map Prod.fst ++ place.items) (front.map Prod.fst) ∧
        Gap place.items (back.map Prod.fst) ∧ language inner a middle ∧
        middle.Passes back place := by
  have between :=
    (takes_comments.skipLeft Cursor.areWays takes).skipRight Cursor.areWays takes_comments
  refine (takes_padded between).imp ?_
  rintro _ a place ⟨blanks, _, blanks', _, rfl, before, behind,
    ⟨_, comments', outer, _, rfl, ⟨comments, inner, _, _, rfl, found, passes, value⟩, passes',
      found'⟩, passes''⟩
  have passed := Cursor.areWays.trans passes' passes''
  rw [passes.items, passed.items] at found
  rw [passes''.items] at found'
  refine ⟨blanks ++ comments, inner, comments' ++ blanks', outer, by simp, ?_, ?_, value, passed⟩
  · simp only [List.map_append, List.append_assoc] at found ⊢
    exact (before _).append found
  · rw [List.map_append]
    exact found'.append (behind _)

/-- A text that is read as tokens is tiled by them. -/
theorem takes_tokens : Takes Cursor.Passes Lexer.tokens fun word tokens place =>
    place.ahead = [] ∧ Tiles [] word tokens := by
  have each : Takes Cursor.Passes (Parser.spanned (Lexer.token.map Prod.mk))
      fun word token place => Covers token.2 word ∧ Lexeme (word.map Prod.fst) token.1 ∧
        Longest (word.map Prod.fst) place.items := by
    have named : Takes Cursor.Passes (Lexer.token.map Prod.mk)
        fun word (make : Span → Token × Span) place => ∃ token, make = Prod.mk token ∧
          Lexeme (word.map Prod.fst) token ∧ Longest (word.map Prod.fst) place.items :=
      takes_token.map fun _ token _ found => ⟨token, rfl, found⟩
    refine named.spanned ?_
    rintro cursor word _ place passes ⟨token, rfl, lexeme, longest⟩
    exact ⟨passes.since fun none => lexeme.ne_nil (by rw [none]; rfl), lexeme, longest⟩
  have all : Takes Cursor.Passes (.many (spaced (Parser.spanned (Lexer.token.map Prod.mk))))
      fun word tokens place => Tiles place.items word tokens := by
    refine Takes.many Cursor.areWays (takes_spaced each) ?_ fun _ => .gap .nil
    rintro _ token place rest tokens place' ⟨front, inner, back, middle, rfl, before, behind,
      ⟨covers, lexeme, longest⟩, passes⟩ passes' tiles
    rw [passes'.items] at before behind
    rw [passes.items, passes'.items] at longest
    have tiled := Tiles.token (by simpa using before) lexeme (by simpa using longest) covers
      (tiles.prepend behind)
    simpa using tiled
  refine ((takes_spaced all).skipRight Cursor.areWays (Takes.finished Cursor.areWays)).imp ?_
  rintro _ tokens place ⟨_, _, _, _, rfl, ⟨front, inner, back, middle, rfl, before, behind, tiles,
    passes⟩, passes', rfl, ended⟩
  have none : place.items = [] := by simp [Cursor.items, ended]
  rw [passes'.items, none] at before behind
  rw [passes.items, passes'.items, none] at tiles
  refine ⟨ended, ?_⟩
  rw [List.append_nil]
  exact .prepend (by simpa using before) (.append (by simpa using tiles) (by simpa using behind))

end Taken

end Wabbit.Token
