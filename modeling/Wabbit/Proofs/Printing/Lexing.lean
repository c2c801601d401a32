import Mathlib.Tactic.IntervalCases
import Wabbit.Proofs.Names.Reading
import Wabbit.Proofs.Parsing.Reads

/-!
Text that writes down given tokens is cut into these tokens again. The tokens have to be ones that
can be written, and blanks have to stand where a token could go on with what follows it.
-/

namespace Wabbit.Token

open Parsing Lexer

/-- Whether a character can stand behind every token without becoming a part of it. -/
def isBoundary (c : Char) : Bool := ¬ continuesWord c ∧ c ≠ '.' ∧ c ≠ '=' ∧ c ≠ '/'

/-- Characters that do not begin with a part of the token before them. -/
def Bounded (chars : List Char) : Prop := ∀ c ∈ chars.head?, isBoundary c = true

/-- Whether anything can stand right behind the token. -/
def isOpen : Token → Bool
  | plus | minus | star | parenOpen | parenClose | curlyOpen | curlyClose | comma | semicolon => true
  | _ => false

/-- Characters that write down tokens, with blanks between them. -/
inductive Writes : List Char → List Token → Prop where
  | nil : Writes [] []
  | blank {c : Char} {chars : List Char} {tokens : List Token} (blank : Text.isBlank c = true)
      (rest : Writes chars tokens) : Writes (c :: chars) tokens
  | token {token : Token} {chars : List Char} {tokens : List Token}
      (parted : token.isOpen = true ∨ Bounded chars) (rest : Writes chars tokens) :
      Writes (token.text.toList ++ chars) (token :: tokens)

/-- Whether a text is a letter or underscore with letters, digits and underscores behind it. -/
def isWord (text : String) : Bool :=
  match text.toList with
  | [] => false
  | c :: rest => startsWord c ∧ rest.all continuesWord

/-- Zero, or digits that do not start with a zero. -/
inductive IsWhole : List Char → Prop where
  | zero : IsWhole ['0']
  | digits {c : Char} {rest : List Char} (first : c.isDigit = true) (nonzero : c ≠ '0')
      (all : ∀ d ∈ rest, d.isDigit = true) : IsWhole (c :: rest)

/-- Whether the token is read again from its own text. -/
def isSpelled : Token → Bool
  | int value => 0 ≤ value.toInt ∧ value.toInt < 2 ^ 31
  | float _ => false
  | ident name => isWord name ∧ keywords.lookup name = none
  | _ => true

section Characters

variable {c : Char}

theorem toNat_of_isAlpha (letter : c.isAlpha = true) : 65 ≤ c.toNat ∧ c.toNat ≤ 122 := by
  delta Char.isAlpha Char.isUpper Char.isLower at letter
  simp only [Bool.or_eq_true, Bool.and_eq_true, decide_eq_true_eq, ge_iff_le,
    UInt32.le_iff_toNat_le] at letter
  change 65 ≤ c.toNat ∧ c.toNat ≤ 90 ∨ 97 ≤ c.toNat ∧ c.toNat ≤ 122 at letter
  omega

theorem toNat_of_isDigit (digit : c.isDigit = true) : 48 ≤ c.toNat ∧ c.toNat ≤ 57 := by
  simp only [Char.isDigit, Bool.and_eq_true, decide_eq_true_eq, ge_iff_le,
    UInt32.le_iff_toNat_le] at digit
  exact digit

private theorem continuesWord_range (continues : continuesWord c = true) :
    48 ≤ c.toNat ∧ c.toNat ≤ 122 := by
  simp only [continuesWord, Char.isAlphanum, Bool.decide_or, Bool.or_eq_true, decide_eq_true_eq]
    at continues
  rcases continues with (letter | digit) | rfl
  · have range := toNat_of_isAlpha letter
    omega
  · have range := toNat_of_isDigit digit
    omega
  · decide

theorem not_isBlank (continues : continuesWord c = true) : Text.isBlank c = false := by
  have range := continuesWord_range continues
  have apart : ∀ range ∈ Text.blankRanges, range.2 < 48 ∨ 122 < range.1 := by decide
  rw [← Bool.not_eq_true, Text.isBlank, Text.within_iff]
  rintro ⟨blank, member, inside⟩
  have beside := apart blank member
  omega

theorem continuesWord_of_isDigit (digit : c.isDigit = true) : continuesWord c = true := by
  simp [continuesWord, Char.isAlphanum, digit]

theorem continuesWord_of_startsWord (starts : startsWord c = true) : continuesWord c = true := by
  simp only [startsWord, Bool.decide_or, Bool.or_eq_true, decide_eq_true_eq] at starts
  simp only [continuesWord, Char.isAlphanum, Bool.decide_or, Bool.or_eq_true, decide_eq_true_eq]
  tauto

theorem not_isDigit (starts : startsWord c = true) : c.isDigit = false := by
  simp only [startsWord, Bool.decide_or, Bool.or_eq_true, decide_eq_true_eq] at starts
  rcases starts with letter | rfl
  · have range := toNat_of_isAlpha letter
    refine Bool.eq_false_iff.mpr fun digit => ?_
    have range' := toNat_of_isDigit digit
    omega
  · decide

end Characters

section Digits

private theorem natOfDigits_toDigits (n : Nat) : natOfDigits (Nat.toDigits 10 n) = n :=
  Nat.ofDigitChars_ten_toDigits

/-- Only zero is written with a zero in front. -/
theorem toDigits_head {n : Nat} (positive : 0 < n) :
    ∃ c rest, Nat.toDigits 10 n = c :: rest ∧ c ≠ '0' := by
  induction n using Nat.strongRecOn with
  | ind n ih =>
    by_cases small : n < 10
    · refine ⟨n.digitChar, [], Nat.toDigits_of_lt_base small, ?_⟩
      interval_cases n <;> decide
    · obtain ⟨c, rest, digits, nonzero⟩ := ih (n / 10) (by omega) (by omega)
      refine ⟨c, rest ++ [(n % 10).digitChar], ?_, nonzero⟩
      rw [Nat.toDigits_of_base_le (by omega) (by omega), digits, List.cons_append]

private theorem isWhole_toDigits (n : Nat) : IsWhole (Nat.toDigits 10 n) := by
  have digits (c : Char) (member : c ∈ Nat.toDigits 10 n) : c.isDigit = true :=
    Nat.isDigit_of_mem_toDigits (by decide) (by decide) member
  by_cases positive : 0 < n
  · obtain ⟨c, more, parts, nonzero⟩ := toDigits_head positive
    rw [parts] at digits ⊢
    exact .digits (digits c (by simp)) nonzero fun d member => digits d (by simp [member])
  · obtain rfl : n = 0 := by omega
    exact .zero

end Digits

theorem map_fst_located (start : Nat) (chars : List Char) :
    (located start chars).map Prod.fst = chars := by
  induction chars generalizing start with
  | nil => rfl
  | cons c chars ih => rw [located, List.map_cons, ih]

section Reading

variable {rest : List Char}

theorem reads_many_satisfy {keep : Char → Bool} {chars : List Char}
    (all : ∀ c ∈ chars, keep c = true) (stop : ∀ c ∈ rest.head?, keep c = false) :
    ReadsMany (Parser.satisfy keep) (chars ++ rest) (· = chars) rest := by
  induction chars with
  | nil => exact .stop (.satisfy stop) rfl
  | cons c chars ih =>
    obtain ⟨own, others⟩ := List.forall_mem_cons.mp all
    refine .more (.satisfy own) (by simp) (ih others) ?_
    rintro a as rfl rfl
    rfl

theorem Bounded.not_continuesWord (bounded : Bounded rest) :
    ∀ c ∈ rest.head?, continuesWord c = false := by
  intro c next
  have boundary := bounded c next
  simp_all [isBoundary]

private theorem Bounded.not_isDigit (bounded : Bounded rest) : ∀ c ∈ rest.head?, c.isDigit = false := by
  intro c next
  by_contra digit
  have continues := continuesWord_of_isDigit (Bool.eq_true_of_not_eq_false digit)
  rw [bounded.not_continuesWord c next] at continues
  cases continues

private theorem Bounded.head?_ne (bounded : Bounded rest) {c : Char} (part : isBoundary c = false) :
    rest.head? ≠ some c := by
  intro next
  rw [bounded c next] at part
  cases part

theorem reads_whole {digits : List Char} (form : IsWhole digits)
    (stop : ∀ c ∈ rest.head?, c.isDigit = false) :
    Reads whole (digits ++ rest) (· = digits) rest := by
  cases form with
  | zero =>
    apply Reads.either_right
    · exact .seq_left _ _ (.satisfy (by simp))
    · exact (Reads.just '0' rest).map fun _ _ => rfl
  | @digits c more first nonzero all =>
    have reads : Reads (Parser.satisfy fun c => c.isDigit ∧ c ≠ '0') (c :: (more ++ rest)) (· = c)
        (more ++ rest) := .satisfy (by simp [first, nonzero])
    apply Reads.either_left
    apply reads.seq (reads_many_satisfy all stop).reads
    rintro a as rfl rfl
    rfl

private theorem rejects_whole (other : ∀ c ∈ rest.head?, c.isDigit = false) : Rejects whole rest := by
  apply Rejects.either
  · apply Rejects.seq_left
    apply Rejects.satisfy
    intro c next
    simp [other c next]
  · apply Rejects.map
    apply Rejects.just
    intro next
    cases other '0' next

theorem rejects_numbers (other : ∀ c ∈ rest.head?, c.isDigit = false) :
    Rejects (Parser.either Lexer.float integer) rest := by
  have noNumber := rejects_whole other
  apply Rejects.either
  · unfold Lexer.float
    exact ((noNumber.skipRight _).both _).map _
  · exact noNumber.refine _

/-- A literal is written with the digits of its value. -/
theorem spelled_int {value : Int64} (spelled : (int value).isSpelled = true) :
    ∃ n < 2 ^ 31, (int value).text.toList = Nat.toDigits 10 n ∧ Int64.ofNat n = value := by
  simp only [isSpelled, Bool.decide_and, Bool.and_eq_true, decide_eq_true_eq] at spelled
  obtain ⟨n, same⟩ := Int.eq_ofNat_of_zero_le spelled.1
  refine ⟨n, by omega, ?_, ?_⟩
  · simp [text, same, Int.toString_eq_repr, Int.repr]
  · rw [← Int64.toInt_inj, Int64.toInt_ofNat_of_lt (by omega), same]

/-- Digits with no digit and no point behind them are read as a whole. -/
theorem reads_digits {digits : List Char} (form : IsWhole digits)
    (small : natOfDigits digits < 2 ^ 31) (bounded : Bounded rest) :
    Reads token (digits ++ rest) (· = int (Int64.ofNat (natOfDigits digits))) rest := by
  have number := reads_whole form bounded.not_isDigit
  apply Reads.either_left
  apply Reads.either_left
  apply Reads.either_right
  · have noPoint : Rejects (Parser.just '.') rest := .just (bounded.head?_ne (by decide))
    unfold Lexer.float Parser.skipRight
    exact (Rejects.both _ (.seq_right _ number noPoint)).map _
  · apply number.refine
    rintro digits rfl
    have small' : natOfDigits digits < 1 <<< 31 := small
    exact ⟨_, if_pos small', rfl⟩

private theorem reads_int {value : Int64} (spelled : (int value).isSpelled = true)
    (bounded : Bounded rest) :
    Reads token ((int value).text.toList ++ rest) (· = int value) rest := by
  obtain ⟨n, small, digits, value_same⟩ := spelled_int spelled
  have reads := reads_digits (isWhole_toDigits n) (by rwa [natOfDigits_toDigits]) bounded
  rwa [natOfDigits_toDigits, value_same, ← digits] at reads

/-- A word with no part of a word behind it is read as a whole. -/
theorem reads_word {name : String} (word : isWord name = true) (bounded : Bounded rest) :
    Reads token (name.toList ++ rest) (· = ofWord name) rest := by
  unfold isWord at word
  split at word
  · cases word
  · rename_i c more parts
    simp only [Bool.decide_and, Bool.decide_eq_true, Bool.and_eq_true, List.all_eq_true,
      decide_eq_true_eq] at word
    rw [parts]
    apply Reads.either_left
    apply Reads.either_right
    · apply rejects_numbers
      rintro _ ⟨⟩
      exact not_isDigit word.1
    · have chars : Reads (Parser.seq List.cons (Parser.satisfy startsWord)
          (Parser.many (.satisfy continuesWord))) (c :: (more ++ rest)) (· = c :: more) rest := by
        apply (Reads.satisfy word.1).seq (reads_many_satisfy word.2 bounded.not_continuesWord).reads
        rintro a as rfl rfl
        rfl
      apply chars.map
      rintro _ rfl
      rw [← parts, String.ofList_toList]

theorem Rejects.exactly_of_differs {chars items : List Char} (other : ¬ chars <+: items) :
    Rejects (Parser.exactly chars) items := by
  intro cursor ahead
  induction chars generalizing cursor items with
  | nil => exact absurd List.nil_prefix other
  | cons c chars ih =>
    unfold Parser.exactly
    split
    · rename_i next
      rw [Cursor.peek_eq_head?, ahead] at next
      obtain ⟨more, rfl⟩ := List.head?_eq_some_iff.mp next
      exact ih (fun front => other (List.cons_prefix_cons.mpr ⟨rfl, front⟩)) cursor.advance
        (by simp [ahead])
    · exact ⟨_, rfl⟩

/-- Whether the token is written as a word. -/
def isKeyword (token : Token) : Bool := keywords.any (·.2 == token)

/-- Whether the token is written as a sign. -/
def isSign (token : Token) : Bool := signs.any (·.2 == token)

private theorem reads_keyword {token : Token} (keyword : token.isKeyword = true)
    (bounded : Bounded rest) :
    Reads Lexer.token (token.text.toList ++ rest) (· = token) rest := by
  have each : ∀ entry ∈ keywords, entry.2.text = entry.1 ∧ isWord entry.1 = true ∧
      ofWord entry.1 = entry.2 := by decide
  obtain ⟨entry, member, same⟩ := List.any_eq_true.mp keyword
  obtain rfl := eq_of_beq same
  obtain ⟨text_same, word, token_same⟩ := each entry member
  rw [text_same]
  have reads := reads_word word bounded
  rwa [token_same] at reads

/-- Whether a sign that is tried before another is not found where the other one is written. -/
def IsApart (earlier sign : String × Token) : Prop :=
  ¬ earlier.1.toList <+: sign.1.toList ∧
    (¬ sign.1.toList <+: earlier.1.toList ∨
      earlier.1.toList = sign.1.toList ++ ['='] ∧ sign.2.isOpen = false)

instance (earlier sign : String × Token) : Decidable (IsApart earlier sign) :=
  inferInstanceAs (Decidable (_ ∧ _))

private theorem IsApart.differs {earlier sign : String × Token} (apart : IsApart earlier sign)
    (parted : sign.2.isOpen = true ∨ Bounded rest) :
    ¬ earlier.1.toList <+: sign.1.toList ++ rest := by
  intro front
  obtain ⟨notFront, longer⟩ := apart
  obtain inside | ⟨more, around⟩ := List.prefix_or_prefix_of_prefix front (List.prefix_append _ rest)
  · exact notFront inside
  · obtain notBehind | ⟨parts, closed⟩ := longer
    · exact notBehind ⟨more, around⟩
    · have bounded : Bounded rest := by simpa [closed] using parted
      rw [parts, List.prefix_append_right_inj] at front
      obtain ⟨behind, rfl⟩ := front
      cases bounded '=' rfl

private theorem reads_sign {token : Token} (known : token.isSign = true)
    (parted : token.isOpen = true ∨ Bounded rest) :
    Reads sign (token.text.toList ++ rest) (· = token) rest := by
  have texts : ∀ sign ∈ signs, sign.2.text = sign.1 := by decide
  have order : signs.Pairwise IsApart := by decide
  obtain ⟨entry, member, same⟩ := List.any_eq_true.mp known
  obtain rfl := eq_of_beq same
  obtain ⟨before, after, parts⟩ := List.append_of_mem member
  have apart : ∀ earlier ∈ before, IsApart earlier entry := by
    rw [parts, List.pairwise_append] at order
    exact fun earlier found => order.2.2 earlier found entry (by simp)
  rw [texts entry member]
  unfold sign
  rw [parts]
  clear parts order member
  apply ReadsChoice.reads
  induction before with
  | nil => exact .here ((Reads.exactly _ _).map fun _ _ => rfl)
  | cons earlier before ih =>
    refine .next (Rejects.map _ (Rejects.exactly_of_differs ?_)) (ih ?_)
    · exact (apart earlier (by simp)).differs parted
    · exact fun other found => apart other (by simp [found])

theorem spelled_ident {name : String} (spelled : (ident name).isSpelled = true) :
    isWord name = true ∧ ofWord name = ident name := by
  simp only [isSpelled, Bool.decide_and, Bool.and_eq_true, decide_eq_true_eq] at spelled
  exact ⟨spelled.1, by rw [ofWord, spelled.2, Option.getD_none]⟩

/-- The text of a token begins with a visible character, and only the sign of a division begins like
a comment. -/
theorem text_head {token : Token} (spelled : token.isSpelled = true) :
    ∃ c more, token.text.toList = c :: more ∧ Text.isBlank c = false ∧
      (c = '/' → token.isOpen = false ∧ more = []) := by
  have begins {text : String} {c : Char} {more : List Char} (parts : text.toList = c :: more)
      (continues : continuesWord c = true) : ∃ c more, text.toList = c :: more ∧
        Text.isBlank c = false ∧ (c = '/' → token.isOpen = false ∧ more = []) := by
    refine ⟨c, more, parts, not_isBlank continues, ?_⟩
    rintro rfl
    cases continues
  cases token with
  | int value =>
    obtain ⟨n, -, digits, -⟩ := spelled_int spelled
    obtain ⟨c, more, parts⟩ := List.exists_cons_of_ne_nil (@Nat.toDigits_ne_nil n 10)
    have digit : c.isDigit = true :=
      @Nat.isDigit_of_mem_toDigits 10 n c (by decide) (by decide) (by simp [parts])
    exact begins (digits.trans parts) (continuesWord_of_isDigit digit)
  | float value => cases spelled
  | ident name =>
    have word := (spelled_ident spelled).1
    unfold isWord at word
    split at word
    · cases word
    · rename_i c more parts
      simp only [Bool.decide_and, Bool.and_eq_true, decide_eq_true_eq] at word
      exact begins parts (continuesWord_of_startsWord (by simpa using word.1))
  | _ => exact ⟨_, _, rfl, by decide, by decide⟩

/-- A token is read from its text. -/
theorem reads_token {token : Token} (spelled : token.isSpelled = true)
    (parted : token.isOpen = true ∨ Bounded rest) :
    Reads Lexer.token (token.text.toList ++ rest) (· = token) rest := by
  cases token with
  | int value => exact reads_int spelled (by simpa [isOpen] using parted)
  | float value => cases spelled
  | ident name =>
    obtain ⟨word, same⟩ := spelled_ident spelled
    have reads := reads_word word (by simpa [isOpen] using parted)
    rwa [same] at reads
  | kwInt | kwFloat | kwVar | kwFunc | kwIf | kwElse | kwWhile | kwPrint | kwReturn =>
    exact reads_keyword (by decide) (by simpa [isOpen] using parted)
  | _ =>
    refine .either_right (.either (rejects_numbers ?_) (.map _ (.seq_left _ _ (.satisfy ?_))))
      (reads_sign (by decide) parted)
    · rintro c ⟨⟩
      decide
    · rintro c ⟨⟩
      decide

end Reading

section Spacing

variable {chars : List Char} {tokens : List Token}

/-- Behind the blanks stands the text of the first token. -/
theorem Writes.next (writes : Writes chars tokens)
    (spelled : ∀ token ∈ tokens, token.isSpelled = true) :
    tokens = [] ∧ chars.dropWhile Text.isBlank = [] ∨
      ∃ token more rest, tokens = token :: more ∧
        chars.dropWhile Text.isBlank = token.text.toList ++ rest ∧
        (token.isOpen = true ∨ Bounded rest) ∧ Writes rest more := by
  induction writes with
  | nil => exact .inl ⟨rfl, rfl⟩
  | blank blank rest ih =>
    rw [List.dropWhile_cons_of_pos blank]
    exact ih spelled
  | token parted rest _ =>
    obtain ⟨c, more, parts, visible, -⟩ := text_head (spelled _ (List.mem_cons_self ..))
    refine .inr ⟨_, _, _, rfl, ?_, parted, rest⟩
    rw [parts, List.cons_append, List.dropWhile_cons_of_neg (by simp [visible])]

/-- No tokens are written as a comment. -/
theorem Writes.rejects_comment (writes : Writes chars tokens)
    (spelled : ∀ token ∈ tokens, token.isSpelled = true) : Rejects comment chars := by
  refine .padded (.skipRight _ (Rejects.exactly_of_differs ?_))
  rintro ⟨behind, front⟩
  obtain ⟨-, ended⟩ | ⟨token, more, rest, rfl, parts, parted, -⟩ := writes.next spelled
  · rw [ended] at front
    cases front
  · obtain ⟨c, others, text_parts, -, slash⟩ := text_head (spelled token (by simp))
    rw [parts, text_parts] at front
    obtain ⟨rfl, same⟩ := List.cons.inj front
    obtain ⟨closed, rfl⟩ := slash rfl
    have bounded : Bounded rest := by simpa [closed] using parted
    obtain rfl : '/' :: behind = rest := same
    cases bounded '/' rfl

theorem reads_spaced {α : Type} {p : Parser Char α} {items rest : List Char} {holds : α → Prop}
    (before : Rejects comment (items.dropWhile Text.isBlank))
    (reads : Reads p (items.dropWhile Text.isBlank) holds rest) (behind : Rejects comment rest) :
    Reads (spaced p) items holds (rest.dropWhile Text.isBlank) :=
  ((ReadsMany.stop before rfl).reads.between reads (ReadsMany.stop behind rfl).reads).padded

theorem rejects_spaced_nil : Rejects (spaced (Parser.spanned (Lexer.token.map Prod.mk))) [] := by
  have none : Rejects comment [] := Writes.nil.rejects_comment nofun
  have noWord : Rejects Lexer.word [] := .map _ (.seq_left _ _ (.satisfy (by simp)))
  have noSign : Rejects Lexer.sign [] := by
    refine .choice fun p member => ?_
    obtain ⟨sign, known, rfl⟩ := List.mem_map.mp member
    have nonempty : ∀ sign ∈ signs, ¬ sign.1.toList <+: [] := by decide
    exact .map _ (Rejects.exactly_of_differs (nonempty sign known))
  have noToken : Rejects Lexer.token [] := ((rejects_numbers (by simp)).either noWord).either noSign
  refine .padded (.skipRight _ ?_)
  exact .seq_right _ (ReadsMany.stop none rfl).reads (noToken.map _).spanned

/-- Text that writes down tokens is cut into them, from the first visible character on. -/
theorem Writes.reads_many (writes : Writes chars tokens)
    (spelled : ∀ token ∈ tokens, token.isSpelled = true) :
    ReadsMany (spaced (Parser.spanned (Lexer.token.map Prod.mk))) (chars.dropWhile Text.isBlank)
      (fun located => located.map Prod.fst = tokens) [] := by
  induction tokens generalizing chars with
  | nil =>
    obtain ⟨-, ended⟩ | ⟨_, _, _, clash, -⟩ := writes.next spelled
    · rw [ended]
      exact .stop rejects_spaced_nil rfl
    · cases clash
  | cons token tokens ih =>
    obtain ⟨clash, -⟩ | ⟨_, _, rest, ⟨⟩, parts, parted, further⟩ := writes.next spelled
    · cases clash
    have spelled_token := spelled token (List.mem_cons_self ..)
    have spelled_tokens (other : Token) (member : other ∈ tokens) : other.isSpelled = true :=
      spelled other (List.mem_cons_of_mem _ member)
    obtain ⟨c, more, text_parts, visible, -⟩ := text_head spelled_token
    have same : (token.text.toList ++ rest).dropWhile Text.isBlank = token.text.toList ++ rest := by
      rw [text_parts, List.cons_append, List.dropWhile_cons_of_neg (by simp [visible])]
    have noComment : Rejects comment (token.text.toList ++ rest) :=
      (Writes.token parted further).rejects_comment spelled
    have located : Reads (Parser.spanned (Lexer.token.map Prod.mk)) (token.text.toList ++ rest)
        (fun pair => pair.1 = token) rest := by
      apply Reads.spanned
      apply (reads_token spelled_token parted).map
      rintro _ rfl span
      rfl
    rw [parts]
    refine .more (reads_spaced (by rwa [same]) (by rwa [same])
      (further.rejects_comment spelled_tokens)) ?_ (ih further spelled_tokens) ?_
    · have shorter := (@List.dropWhile_suffix _ rest Text.isBlank).length_le
      simp only [text_parts, List.cons_append, List.length_cons, List.length_append]
      omega
    · rintro pair pairs rfl rfl
      rfl

/-- Text that writes down tokens is cut into them. -/
theorem Writes.reads_tokens (writes : Writes chars tokens)
    (spelled : ∀ token ∈ tokens, token.isSpelled = true) :
    Reads Lexer.tokens chars (fun located => located.map Prod.fst = tokens) [] := by
  have none : Rejects comment [] := Writes.nil.rejects_comment nofun
  have visible : Writes (chars.dropWhile Text.isBlank) tokens := by
    obtain ⟨rfl, ended⟩ | ⟨_, _, _, rfl, parts, parted, further⟩ := writes.next spelled
    · rw [ended]
      exact .nil
    · rw [parts]
      exact .token parted further
  have reads := reads_spaced (visible.rejects_comment spelled) (writes.reads_many spelled).reads none
  exact reads.skipRight Reads.finished

end Spacing

section Spelling

/-- Whether the token is read again from its own text, unless it is a float. -/
def IsLexed (token : Token) : Prop := token.isSpelled = true ∨ ∃ value, token = float value

variable (good : Char → Prop)

private theorem isLexed_ofWord {word : String} (spelled : isWord word = true) :
    (ofWord word).IsLexed := by
  refine .inl ?_
  unfold ofWord
  cases found : keywords.lookup word with
  | none => simp [isSpelled, spelled, found]
  | some token =>
    obtain ⟨before, after, parts, -⟩ := List.lookup_eq_some_iff.mp found
    have keyword : (word, token) ∈ keywords := by simp [parts]
    have all : ∀ entry ∈ keywords, entry.2.isSpelled = true := by decide
    exact all _ keyword

private theorem word_isLexed : Yields good IsLexed Lexer.word := by
  have chars : Yields good (fun chars => isWord (String.ofList chars) = true)
      (Parser.seq List.cons (Parser.satisfy startsWord) (Parser.many (.satisfy continuesWord))) := by
    refine (Yields.satisfy startsWord).seq (Yields.satisfy continuesWord).many ?_
    intro c rest starts continues
    simpa [isWord, starts] using continues
  exact chars.map fun chars spelled => isLexed_ofWord spelled

private theorem sign_isLexed : Yields good IsLexed Lexer.sign := by
  refine Yields.choice fun p member => ?_
  obtain ⟨⟨text, token⟩, known, rfl⟩ := List.mem_map.mp member
  refine (Yields.exactly text.toList).map fun _ _ => ?_
  have all : ∀ sign ∈ signs, sign.2.isSpelled = true := by decide
  exact .inl (all _ known)

private theorem integer_isLexed : Yields good IsLexed Lexer.integer := by
  refine (whole_yields good).refine fun digits token _ read => ?_
  dsimp only at read
  split at read
  · rename_i small
    cases read
    have bound : natOfDigits digits < 2 ^ 31 := small
    have value : (Int64.ofNat (natOfDigits digits)).toInt = natOfDigits digits :=
      Int64.toInt_ofNat_of_lt (by omega)
    refine .inl ?_
    simp only [isSpelled, value]
    simp only [decide_eq_true_eq]
    omega
  · cases read

private theorem token_isLexed : Yields good IsLexed Lexer.token := by
  have float_isLexed : Yields good IsLexed Lexer.float := by
    have front := (whole_yields good).skipRight (Yields.just '.')
    have digits := front.both (digit_yields good).manyOnce.optional
    unfold Lexer.float
    exact digits.map fun _ _ => .inr ⟨_, rfl⟩
  exact ((float_isLexed.either (integer_isLexed good)).either (word_isLexed good)).either
    (sign_isLexed good)

/-- Every token of a text is a float or read again from its own text. -/
theorem tokens_areLexed : Yields good (fun tokens => ∀ token ∈ tokens, token.1.IsLexed)
    Lexer.tokens := by
  have each : Yields good (fun token : Token × Span => token.1.IsLexed)
      (Parser.spanned (Lexer.token.map Prod.mk)) :=
    ((token_isLexed good).map fun _ lexed _ => lexed).spanned
  exact (spaced_yields (spaced_yields each).many).skipRight Yields.finished

end Spelling

end Wabbit.Token
