import Wabbit.Proofs.Tokens.Tiles

/-!
The spans of tokens. They are ranges of bytes that hold the texts of the tokens, one behind the
other, and what lies between them is white space and comments. Each text is read alone as its token,
and two texts that touch never make up one word or sign.
-/

namespace Wabbit

/-- The text is cut into three, and the span is the range of bytes of the second part. -/
structure Span.Cuts (span : Span) (source before text after : String) : Prop where
  whole : source = before ++ text ++ after
  start : span.start = before.utf8ByteSize
  stop : span.stop = (before ++ text).utf8ByteSize

namespace Token

open Parsing Source

/-- The characters of located ones, as a text. -/
def textOf (word : List (Char × Span)) : String := .ofList (word.map Prod.fst)

section Located

variable {start : Nat} {chars : List Char} {front word behind back : List (Char × Span)}
  {span : Span} {source : String}

theorem textOf_append (front back : List (Char × Span)) :
    textOf (front ++ back) = textOf front ++ textOf back := by
  rw [textOf, List.map_append, String.ofList_append]
  rfl

theorem utf8ByteSize_cons (c : Char) (chars : List Char) :
    (String.ofList (c :: chars)).utf8ByteSize = c.utf8Size + (String.ofList chars).utf8ByteSize := by
  rw [String.ofList_cons, String.utf8ByteSize_append, String.utf8ByteSize_singleton]

theorem located_append (start : Nat) (chars chars' : List Char) :
    located start (chars ++ chars') =
      located start chars ++ located (start + (String.ofList chars).utf8ByteSize) chars' := by
  induction chars generalizing start with
  | nil => rfl
  | cons c chars ih =>
    rw [List.cons_append, located, located, ih, utf8ByteSize_cons, Nat.add_assoc, List.cons_append]

/-- The characters of a text take up its bytes one behind the other. -/
theorem located_inside (start : Nat) (chars : List Char) :
    InOrder (located start chars) ∧ ∀ item ∈ located start chars,
      start ≤ item.2.start ∧ item.2.stop ≤ start + (String.ofList chars).utf8ByteSize := by
  induction chars generalizing start with
  | nil => exact ⟨⟨nofun, .nil⟩, nofun⟩
  | cons c chars ih =>
    obtain ⟨⟨valid, apart⟩, bounds⟩ := ih (start + c.utf8Size)
    rw [located, utf8ByteSize_cons]
    refine ⟨⟨List.forall_mem_cons.mpr ⟨Nat.le_add_right _ _, valid⟩,
      .cons (fun item member => (bounds item member).1) apart⟩, List.forall_mem_cons.mpr ⟨?_, ?_⟩⟩
    · dsimp only
      omega
    · intro item member
      have bound := bounds item member
      omega

/-- A part of the characters of a text stands behind the bytes of what is in front of it. -/
theorem located_parts (parts : located start chars = front ++ back) :
    chars = front.map Prod.fst ++ back.map Prod.fst ∧ front = located start (front.map Prod.fst) ∧
      back = located (start + (textOf front).utf8ByteSize) (back.map Prod.fst) := by
  have same : chars = front.map Prod.fst ++ back.map Prod.fst := by
    rw [← List.map_append, ← parts, map_fst_located]
  rw [same, located_append] at parts
  have length_same : (located start (front.map Prod.fst)).length = front.length := by
    rw [← List.length_map Prod.fst, map_fst_located, List.length_map]
  obtain ⟨front_same, back_same⟩ := List.append_inj parts length_same
  exact ⟨same, front_same.symm, back_same.symm⟩

private theorem covers_located (covers : Covers span (located start chars)) :
    span = ⟨start, start + (String.ofList chars).utf8ByteSize⟩ := by
  obtain ⟨first, head, last, back, rfl⟩ := covers
  have first_start : first.2.start = start := by
    cases chars with
    | nil => cases head
    | cons c chars =>
      cases head
      rfl
  have last_stop : last.2.stop = start + (String.ofList chars).utf8ByteSize := by
    obtain rfl | ⟨initial, c, rfl⟩ := List.eq_nil_or_concat chars
    · cases back
    · rw [List.concat_eq_append, located_append, List.getLast?_append] at back
      cases back
      rw [List.concat_eq_append, String.ofList_append, String.utf8ByteSize_append, utf8ByteSize_cons]
      exact Nat.add_assoc ..
  rw [first_start, last_stop]

/-- Every part of the located characters of a source cuts out a range of its bytes. -/
theorem cuts_located (parts : located 0 source.toList = front ++ (word ++ behind)) :
    Span.Cuts ⟨(textOf front).utf8ByteSize, (textOf (front ++ word)).utf8ByteSize⟩ source
      (textOf front) (textOf word) (textOf behind) := by
  refine ⟨?_, rfl, by rw [textOf_append]⟩
  rw [← textOf_append, ← textOf_append, List.append_assoc, textOf, ← parts, map_fst_located,
    String.ofList_toList]

/-- The span over a part of the located characters is the range that the part cuts out. -/
theorem eq_of_covers (covers : Covers span word)
    (parts : located 0 source.toList = front ++ (word ++ behind)) :
    span = ⟨(textOf front).utf8ByteSize, (textOf (front ++ word)).utf8ByteSize⟩ := by
  obtain ⟨-, -, same⟩ := located_parts parts
  obtain ⟨-, same', -⟩ := located_parts same.symm
  rw [same', Nat.zero_add] at covers
  rw [covers_located covers, textOf_append, String.utf8ByteSize_append]
  rfl

theorem utf8ByteSize_textOf_eq_zero_iff : (textOf word).utf8ByteSize = 0 ↔ word = [] := by
  cases word with
  | nil => simp [textOf]
  | cons item rest =>
    rw [textOf, List.map_cons, utf8ByteSize_cons]
    have positive := item.1.utf8Size_pos
    simp
    omega

end Located

/-- What lies between two spans of a source is white space and comments. -/
def Parted (source : String) (a b : Span) : Prop :=
  ∃ before gap after, Span.Cuts ⟨a.stop, b.start⟩ source before gap after ∧
    Gap after.toList gap.toList

/-- If two spans of a source touch, their texts together are no word and no sign. -/
def Separate (source : String) (a b : Span) : Prop :=
  a.stop = b.start → ∃ before text text' after, a.Cuts source before text (text' ++ after) ∧
    b.Cuts source (before ++ text) text' after ∧ isWord (text ++ text') = false ∧
      text ++ text' ∉ (keywords ++ signs).map Prod.fst

/-- What is no word is no keyword either. -/
theorem not_mem_texts {chars : List Char}
    (longest : isWord (String.ofList chars) = false ∧ ∀ sign ∈ signs, sign.1.toList ≠ chars) :
    String.ofList chars ∉ (keywords ++ signs).map Prod.fst := by
  have words : ∀ keyword ∈ keywords, isWord keyword.1 = true := by decide
  intro member
  obtain ⟨entry, known, same⟩ := List.mem_map.mp member
  obtain keyword | sign := List.mem_append.mp known
  · have word := words entry keyword
    rw [same, longest.1] at word
    cases word
  · exact longest.2 entry sign (by rw [same, String.toList_ofList])

section Tiled

variable {source : String} {front word : List (Char × Span)} {tokens : List (Token × Span)}

/-- Every token is cut out of the source behind the bytes in front of the tiles. -/
theorem Tiles.texts (tiles : Tiles [] word tokens)
    (parts : located 0 source.toList = front ++ word) :
    ∀ item ∈ tokens, (textOf front).utf8ByteSize ≤ item.2.start ∧ ∃ before text after,
      item.2.Cuts source before text after ∧ Lexeme text.toList item.1 := by
  induction tiles generalizing front with
  | gap => exact nofun
  | @token front' word behind token span tokens gap lexeme longest covers tiles ih =>
    rw [← List.append_assoc] at parts
    obtain rfl := eq_of_covers covers parts
    have ahead := @ih (front ++ front' ++ word) (by rw [parts, List.append_assoc _ word])
    have order : (textOf front).utf8ByteSize ≤ (textOf (front ++ front')).utf8ByteSize := by
      rw [textOf_append, String.utf8ByteSize_append]
      exact Nat.le_add_right _ _
    have order' : (textOf (front ++ front')).utf8ByteSize ≤
        (textOf (front ++ front' ++ word)).utf8ByteSize := by
      rw [textOf_append _ word, String.utf8ByteSize_append]
      exact Nat.le_add_right _ _
    refine List.forall_mem_cons.mpr ⟨⟨order, _, _, _, cuts_located parts, ?_⟩, ?_⟩
    · rwa [textOf, String.toList_ofList]
    · intro item member
      obtain ⟨further, text⟩ := ahead item member
      exact ⟨by omega, text⟩

private theorem Tiles.ordered (tiles : Tiles [] word tokens)
    (parts : located 0 source.toList = front ++ word) :
    tokens.Pairwise fun a b => a.2.stop ≤ b.2.start := by
  induction tiles generalizing front with
  | gap => exact .nil
  | @token front' word behind token span tokens gap lexeme longest covers tiles ih =>
    rw [← List.append_assoc] at parts
    obtain rfl := eq_of_covers covers parts
    have parts' : located 0 source.toList = front ++ front' ++ word ++ behind := by
      rw [parts, List.append_assoc _ word]
    exact .cons (fun item member => (tiles.texts parts' item member).1) (ih parts')

/-- The spans of the tokens of a whole source are ranges of its bytes, one behind the other. -/
theorem Tiles.inside (tiles : Tiles [] (located 0 source.toList) tokens) :
    InOrder tokens ∧
      ∀ item ∈ tokens, item.2.start < item.2.stop ∧ item.2.stop ≤ source.utf8ByteSize := by
  have inside : ∀ item ∈ tokens,
      item.2.start < item.2.stop ∧ item.2.stop ≤ source.utf8ByteSize := by
    intro item member
    obtain ⟨-, before, text, after, cuts, lexeme⟩ := @Tiles.texts source [] _ _ tiles rfl item member
    have positive : text.utf8ByteSize ≠ 0 := by
      rw [Ne, String.utf8ByteSize_eq_zero_iff, ← String.toList_eq_nil_iff]
      exact lexeme.ne_nil
    rw [cuts.start, cuts.stop, cuts.whole]
    simp only [String.utf8ByteSize_append]
    omega
  exact ⟨⟨fun item member => Nat.le_of_lt (inside item member).1,
    @Tiles.ordered source [] _ _ tiles rfl⟩, inside⟩

private theorem parted_of_gap {gap behind : List (Char × Span)} {a b : Span}
    (parts : located 0 source.toList = front ++ (gap ++ behind))
    (gapped : Gap (behind.map Prod.fst) (gap.map Prod.fst))
    (stop : a.stop = (textOf front).utf8ByteSize)
    (start : b.start = (textOf (front ++ gap)).utf8ByteSize) : Parted source a b := by
  refine ⟨textOf front, textOf gap, textOf behind, ?_, ?_⟩
  · rw [stop, start]
    exact cuts_located parts
  · rwa [textOf, textOf, String.toList_ofList, String.toList_ofList]

private theorem Tiles.parted (tiles : Tiles [] word tokens)
    (parts : located 0 source.toList = front ++ word) (edge : Span)
    (stop : edge.stop = (textOf front).utf8ByteSize) :
    (edge :: (tokens.map Prod.snd ++ [endOf source])).IsChain (Parted source) := by
  induction tiles generalizing front edge with
  | @gap word gap =>
    have parts' : located 0 source.toList = front ++ (word ++ []) := by rw [parts, List.append_nil]
    refine .cons_cons (parted_of_gap parts' gap stop ?_) (.singleton _)
    rw [textOf, ← parts, map_fst_located, String.ofList_toList]
    rfl
  | @token front' word behind token span tokens gap lexeme longest covers tiles ih =>
    have parts' : located 0 source.toList = front ++ front' ++ (word ++ behind) := by
      rw [parts, List.append_assoc]
    rw [List.append_nil] at gap
    obtain rfl := eq_of_covers covers parts'
    refine .cons_cons (parted_of_gap parts gap stop rfl) (ih ?_ _ rfl)
    rw [parts', List.append_assoc _ word]

private theorem Tiles.separate (tiles : Tiles [] word tokens)
    (parts : located 0 source.toList = front ++ word) :
    (tokens.map Prod.snd).IsChain (Separate source) := by
  induction tiles generalizing front with
  | gap => exact .nil
  | @token front' word behind token span tokens gap lexeme longest covers tiles ih =>
    rw [← List.append_assoc] at parts
    have parts' : located 0 source.toList = front ++ front' ++ word ++ behind := by
      rw [parts, List.append_assoc _ word]
    have rest := ih parts'
    cases tiles with
    | gap => exact .singleton _
    | @token gap' word' behind' token' span' tokens gap lexeme' longest' covers' tiles =>
      refine .cons_cons ?_ rest
      have parts'' : located 0 source.toList =
          front ++ front' ++ word ++ gap' ++ (word' ++ behind') := by
        rw [parts', List.append_assoc _ gap']
      obtain rfl := eq_of_covers covers parts
      obtain rfl := eq_of_covers covers' parts''
      intro touch
      obtain rfl : gap' = [] := by
        rw [textOf_append _ gap', String.utf8ByteSize_append] at touch
        exact utf8ByteSize_textOf_eq_zero_iff.mp (by simpa using touch)
      simp only [List.nil_append, List.append_nil] at parts parts'' longest ⊢
      have cuts := cuts_located parts
      have cuts' := cuts_located parts''
      rw [textOf_append word'] at cuts
      have alone := longest (word'.map Prod.fst) lexeme'.ne_nil
        (by rw [List.map_append]; exact List.prefix_append _ _)
      rw [← List.map_append] at alone
      refine ⟨_, _, _, _, cuts, ?_, ?_, ?_⟩
      · rw [← textOf_append]
        exact cuts'
      · rw [← textOf_append]
        exact alone.1
      · rw [← textOf_append]
        exact not_mem_texts alone

end Tiled

section Alone

variable {chars : List Char} {token : Token}

/-- No gap stands inside the text of a token. -/
theorem Lexeme.gap_eq_nil {before gap after rest : List Char}
    (lexeme : Lexeme (before ++ (gap ++ after)) token) (gapped : Gap rest gap) : gap = [] := by
  cases gapped with
  | nil => rfl
  | @blank c chars blank =>
    have visible := (lexeme.visible c (by simp)).1
    rw [blank] at visible
    cases visible
  | comment =>
    have slash := (lexeme.visible '/' (by simp)).2 rfl
    have lengths := congrArg List.length slash
    simp at lengths
    omega

private theorem rejects_comment (slash : ¬ ['/', '/'] <+: chars.dropWhile Text.isBlank) :
    Rejects Lexer.comment chars :=
  .padded (.skipRight _ (Rejects.exactly_of_differs slash))

private theorem Lexeme.reads_tokens (lexeme : Lexeme chars token) :
    Reads Lexer.tokens chars (fun located => located.map Prod.fst = [token]) [] := by
  have none : Rejects Lexer.comment [] := rejects_comment (by decide)
  have same : chars.dropWhile Text.isBlank = chars := by
    obtain ⟨c, more, rfl⟩ := List.exists_cons_of_ne_nil lexeme.ne_nil
    exact List.dropWhile_cons_of_neg (by simp [(lexeme.visible c (by simp)).1])
  have noComment : Rejects Lexer.comment (chars.dropWhile Text.isBlank) := by
    refine rejects_comment ?_
    rw [same, same]
    rintro ⟨behind, front⟩
    have slash := (lexeme.visible '/' (by simp [← front])).2 rfl
    rw [slash] at front
    cases front
  have located : Reads (Parser.spanned (Lexer.token.map Prod.mk)) (chars.dropWhile Text.isBlank)
      (fun pair => pair.1 = token) [] := by
    rw [same]
    refine (lexeme.reads.map ?_).spanned
    rintro _ rfl span
    rfl
  have round := reads_spaced noComment located none
  have rounds : ReadsMany (Lexer.spaced (Parser.spanned (Lexer.token.map Prod.mk)))
      (chars.dropWhile Text.isBlank) (fun located => located.map Prod.fst = [token]) [] := by
    rw [same]
    refine .more round ?_ (.stop rejects_spaced_nil rfl) ?_
    · exact List.length_pos_iff.mpr lexeme.ne_nil
    · rintro pair pairs rfl rfl
      rfl
  exact (reads_spaced noComment rounds.reads none).skipRight Reads.finished

end Alone

end Token

namespace Source

open Parsing Token

variable {source : String} {tokens : List (Token × Span)}

/-- A text that is cut into tokens without a fault is tiled by them. -/
theorem tiles_of_lex (read : outcome? (lex source) = some tokens)
    (clean : faults (lex source) = []) : Tiles [] (located 0 source.toList) tokens := by
  match done : lex source with
  | .failed recorded fault =>
    rw [done] at read
    cases read
  | .done s =>
    rw [done] at read clean
    cases read
    obtain ⟨word, passes, ended, tiles⟩ := takes_tokens _ s done clean
    have ahead : located 0 source.toList = word ++ s.rest.ahead := passes.ahead
    rw [ended, List.append_nil] at ahead
    rwa [ahead]

/-- The text of a token is cut into this token alone. -/
theorem lex_alone {text : String} {token : Token} (lexeme : Lexeme text.toList token) :
    outcome? (lex text) = some [(token, ⟨0, text.utf8ByteSize⟩)] ∧ faults (lex text) = [] := by
  obtain ⟨s, done, clean, value, -⟩ := lexeme.reads_tokens
    (.ofList (located 0 text.toList) (endOf text)) (map_fst_located 0 _)
  have done : lex text = .done s := done
  obtain ⟨span, value⟩ : ∃ span, s.value = [(token, span)] := by
    obtain ⟨⟨_, span⟩, same, rfl⟩ := List.map_eq_singleton_iff.mp value
    exact ⟨span, same⟩
  have read : outcome? (lex text) = some [(token, span)] := by rw [done, outcome?, value]
  have clean : faults (lex text) = [] := by rw [done, faults, clean]
  refine ⟨?_, clean⟩
  have tiles := tiles_of_lex read clean
  generalize parts : located 0 text.toList = characters at tiles
  cases tiles with
  | @token front word behind _ _ _ gap _ _ covers tiles =>
    cases tiles with
    | gap gap' =>
      have whole := (located_parts parts).1
      rw [List.map_append] at whole
      rw [whole] at lexeme
      have inFront : front.map Prod.fst = [] :=
        @Lexeme.gap_eq_nil _ [] _ _ _ lexeme gap
      have atBack : behind.map Prod.fst = [] := by
        rw [inFront, List.nil_append, ← List.append_nil (behind.map Prod.fst)] at lexeme
        exact lexeme.gap_eq_nil gap'
      obtain rfl := List.map_eq_nil_iff.mp inFront
      obtain rfl := List.map_eq_nil_iff.mp atBack
      have range := @eq_of_covers [] word [] span text covers parts
      have same : textOf ([] ++ word) = text := by
        rw [List.append_nil] at parts
        rw [textOf, ← parts, map_fst_located, String.ofList_toList]
      rw [read, range, same]
      rfl

/-- The tokens of a text with their spans, as tiles that the text is made of together with the gaps
between them. -/
structure IsTiling (source : String) (tokens : List (Token × Span)) : Prop where
  /-- Each span is a range of bytes of the source, and its text is cut into the one token alone. -/
  texts : ∀ item ∈ tokens, item.2.start < item.2.stop ∧ item.2.stop ≤ source.utf8ByteSize ∧
    ∃ before text after, item.2.Cuts source before text after ∧
      outcome? (lex text) = some [(item.1, ⟨0, text.utf8ByteSize⟩)] ∧ faults (lex text) = []
  ordered : tokens.Pairwise fun a b => a.2.start < b.2.start ∧ a.2.stop ≤ b.2.start
  /-- Before the first token and behind the last one there are only white space and comments, too. -/
  parted : (.marker 0 :: (tokens.map Prod.snd ++ [endOf source])).IsChain (Parted source)
  separate : (tokens.map Prod.snd).IsChain (Separate source)

/-- A text that is cut into tokens without a fault is tiled by them: their spans are ranges of bytes
that follow each other with nothing but white space and comments in between, each text alone is read
as its token, and touching texts make up no longer word or sign. -/
theorem lex_tiles (read : outcome? (lex source) = some tokens) (clean : faults (lex source) = []) :
    IsTiling source tokens := by
  have tiles := tiles_of_lex read clean
  obtain ⟨ordered, inside⟩ := tiles.inside
  refine ⟨?_, ?_, @Tiles.parted source [] _ _ tiles rfl _ rfl,
    @Tiles.separate source [] _ _ tiles rfl⟩
  · intro item member
    obtain ⟨-, before, text, after, cuts, lexeme⟩ := @Tiles.texts source [] _ _ tiles rfl item member
    obtain ⟨nonempty, bounded⟩ := inside item member
    exact ⟨nonempty, bounded, before, text, after, cuts, lex_alone lexeme⟩
  · refine ordered.apart.imp_of_mem fun first _ apart => ⟨?_, apart⟩
    exact Nat.lt_of_lt_of_le (inside _ first).1 apart

/-- A number that ends with its point, a comment that ends with its line, a wide blank, and digits
that touch: no number starts with a zero. -/
theorem lex_tiles_touching :
    let source := "x<=1.// \u00e9\n\u3000007"
    let tokens := [(Token.ident "x", ⟨0, 1⟩), (.lessEq, ⟨1, 3⟩),
      (.float (.ofRatio false 1 1), ⟨3, 5⟩), (.int 0, ⟨14, 15⟩), (.int 0, ⟨15, 16⟩),
      (.int 7, ⟨16, 17⟩)]
    outcome? (lex source) = some tokens ∧ faults (lex source) = [] ∧ IsTiling source tokens := by
  intro source tokens
  have read : outcome? (lex source) = some tokens := by decide +kernel
  have clean : faults (lex source) = [] := by decide +kernel
  exact ⟨read, clean, lex_tiles read clean⟩

end Source

end Wabbit
