import Wabbit.Proofs.Parsing.Places
import Wabbit.Proofs.Printing.Lexing

/-!
The texts of tokens. A token is read from a number, a word or a sign, and no longer word or sign
begins where it does. Text that is one of these and nothing else is read as its token.
-/

namespace Wabbit.Token

open Parsing Lexer

/-- A text that is written for a token. -/
inductive Lexeme : List Char → Token → Prop where
  | float {front back : List Char} (whole : IsWhole front) (digits : ∀ c ∈ back, c.isDigit = true) :
      Lexeme (front ++ '.' :: back)
        (.float (.ofRatio false (natOfDigits (front ++ back)) (Nat.pow 10 back.length)))
  | int {digits : List Char} (whole : IsWhole digits) (small : natOfDigits digits < 2 ^ 31) :
      Lexeme digits (.int (Int64.ofNat (natOfDigits digits)))
  | word {text : String} (spelled : isWord text = true) : Lexeme text.toList (ofWord text)
  | sign {text : String} {token : Token} (known : (text, token) ∈ signs) : Lexeme text.toList token

/-- No word and no sign begins with the characters and goes on into the rest. -/
def Longest (chars rest : List Char) : Prop :=
  ∀ longer, longer ≠ [] → longer <+: rest →
    isWord (String.ofList (chars ++ longer)) = false ∧
      ∀ sign ∈ signs, sign.1.toList ≠ chars ++ longer

section Characters

variable {chars rest : List Char} {token : Token}

theorem isWord_iff {text : String} : isWord text = true ↔ ∃ c more, text.toList = c :: more ∧
    startsWord c = true ∧ ∀ d ∈ more, continuesWord d = true := by
  unfold isWord
  cases text.toList <;> simp

theorem isWord_cons (c : Char) (more : List Char) :
    isWord (String.ofList (c :: more)) = true ↔
      startsWord c = true ∧ ∀ d ∈ more, continuesWord d = true := by
  simp [isWord]

private theorem IsWhole.isDigit (form : IsWhole chars) : ∀ c ∈ chars, c.isDigit = true := by
  cases form with
  | zero => exact List.forall_mem_singleton.mpr rfl
  | digits first nonzero all => exact List.forall_mem_cons.mpr ⟨first, all⟩

theorem IsWhole.ne_nil (form : IsWhole chars) : chars ≠ [] := by
  cases form <;> simp

/-- Signs are made of characters that no number and no word begins with. -/
theorem signs_head : ∀ sign ∈ signs, ∃ c more, sign.1.toList = c :: more ∧
    startsWord c = false ∧ c.isDigit = false := by
  have heads : ∀ sign ∈ signs,
      sign.1.toList.head?.any (fun c => !startsWord c && !c.isDigit) = true := by decide
  intro sign known
  obtain ⟨c, head, other⟩ := (Option.any_eq_true _ _).mp (heads sign known)
  obtain ⟨more, parts⟩ := List.head?_eq_some_iff.mp head
  exact ⟨c, more, parts, by simpa using other⟩

/-- A number does not begin like a word or a sign. -/
theorem longest_of_isDigit {c : Char} {more : List Char} (digit : c.isDigit = true)
    (rest : List Char) : Longest (c :: more) rest := by
  intro longer _ _
  constructor
  · rw [List.cons_append, ← Bool.not_eq_true, isWord_cons]
    rintro ⟨starts, -⟩
    rw [not_isDigit starts] at digit
    cases digit
  · intro sign known same
    obtain ⟨d, _, parts, -, other⟩ := signs_head sign known
    rw [parts, List.cons_append] at same
    obtain ⟨rfl, -⟩ := List.cons.inj same
    rw [digit] at other
    cases other

theorem IsWhole.longest (form : IsWhole chars) (more rest : List Char) :
    Longest (chars ++ more) rest := by
  cases form with
  | zero => exact longest_of_isDigit (by decide) rest
  | digits first nonzero all => exact longest_of_isDigit first rest

private theorem longest_of_isWord {text : String} (spelled : isWord text = true)
    (stop : ∀ c ∈ rest.head?, continuesWord c = false) : Longest text.toList rest := by
  intro longer nonempty front
  obtain ⟨c, more, parts, starts, _⟩ := isWord_iff.mp spelled
  rw [parts]
  constructor
  · rw [List.cons_append, ← Bool.not_eq_true, isWord_cons]
    rintro ⟨-, all⟩
    obtain ⟨d, longer, rfl⟩ := List.exists_cons_of_ne_nil nonempty
    obtain ⟨behind, rfl⟩ := front
    have stopped := stop d rfl
    rw [all d (by simp)] at stopped
    cases stopped
  · intro sign known same
    obtain ⟨d, _, sign_parts, other, -⟩ := signs_head sign known
    rw [sign_parts, List.cons_append] at same
    obtain ⟨rfl, -⟩ := List.cons.inj same
    rw [starts] at other
    cases other

/-- A sign is not followed by what would make it another one that is tried before it. -/
theorem longest_of_sign {before after : List (String × Token)} {sign : String × Token}
    (parts : signs = before ++ sign :: after)
    (others : ∀ other ∈ before, ¬ other.1.toList <+: sign.1.toList ++ rest) :
    Longest sign.1.toList rest := by
  have order : signs.Pairwise fun earlier later => ¬ earlier.1.toList <+: later.1.toList := by
    decide
  intro longer nonempty front
  obtain ⟨c, more, sign_parts, word, -⟩ := signs_head sign (by simp [parts])
  constructor
  · rw [sign_parts, List.cons_append, ← Bool.not_eq_true, isWord_cons, word]
    simp
  · intro other known same
    rw [parts] at known order
    obtain earlier | rfl | later : other ∈ before ∨ other = sign ∨ other ∈ after := by
      simpa using known
    · apply others other earlier
      rw [same]
      exact (List.prefix_append_right_inj _).mpr front
    · exact nonempty (List.self_eq_append_right.mp same)
    · have apart := List.rel_of_pairwise_cons (List.pairwise_append.mp order).2.1 later
      rw [same] at apart
      exact apart (List.prefix_append _ _)

theorem Lexeme.ne_nil (lexeme : Lexeme chars token) : chars ≠ [] := by
  cases lexeme with
  | float => simp
  | int form => exact form.ne_nil
  | word spelled =>
    obtain ⟨c, more, parts, -⟩ := isWord_iff.mp spelled
    rw [parts]
    exact List.cons_ne_nil c more
  | sign known =>
    obtain ⟨c, more, parts, -⟩ := signs_head _ known
    rw [parts]
    exact List.cons_ne_nil c more

/-- No text of a token has white space in it, and only that of a division has a slash. -/
theorem Lexeme.visible (lexeme : Lexeme chars token) :
    ∀ c ∈ chars, Text.isBlank c = false ∧ (c = '/' → chars = ['/']) := by
  have other {c : Char} (continues : continuesWord c = true) :
      Text.isBlank c = false ∧ (c = '/' → chars = ['/']) := by
    refine ⟨not_isBlank continues, ?_⟩
    rintro rfl
    cases continues
  intro c member
  cases lexeme with
  | float form digits =>
    obtain front | rfl | back : c ∈ _ ∨ c = '.' ∨ c ∈ _ := by simpa using member
    · exact other (continuesWord_of_isDigit (form.isDigit c front))
    · exact ⟨by decide, nofun⟩
    · exact other (continuesWord_of_isDigit (digits c back))
  | int form small => exact other (continuesWord_of_isDigit (form.isDigit c member))
  | word spelled =>
    obtain ⟨first, more, parts, starts, all⟩ := isWord_iff.mp spelled
    rw [parts] at member
    obtain rfl | member := List.mem_cons.mp member
    · exact other (continuesWord_of_startsWord starts)
    · exact other (all c member)
  | sign known =>
    have all : ∀ sign ∈ signs, sign.1.toList.all (fun c =>
        !Text.isBlank c && (c ≠ '/' || sign.1.toList = ['/'])) = true := by decide
    have visible := List.all_eq_true.mp (all _ known) c member
    simpa [Decidable.or_iff_not_imp_left] using visible

end Characters

section Taken

/-- What a reader of characters takes, told with what it leaves. -/
abbrev TakesText {α : Type} (p : Parser Char α)
    (language : List Char → α → List Char → Prop) : Prop :=
  Takes Cursor.Passes p fun word a place => language (word.map Prod.fst) a place.items

theorem takes_many_satisfy (keep : Char → Bool) :
    TakesText (Parser.many (Parser.satisfy keep)) fun chars found rest =>
      chars = found ∧ (∀ c ∈ found, keep c = true) ∧ ∀ c ∈ rest.head?, keep c = false := by
  apply Takes.many_failing Cursor.areWays (Takes.satisfy Cursor.areWays keep)
  · rintro word a place rest as place' ⟨kept, span, rfl⟩ - ⟨rfl, all, stop⟩
    exact ⟨rfl, List.forall_mem_cons.mpr ⟨kept, all⟩, stop⟩
  · rintro word a place ⟨-, span, rfl⟩
    simp
  · intro place recorded fault failed
    refine ⟨rfl, nofun, fun c next => ?_⟩
    by_contra kept
    obtain ⟨rest, parts⟩ := List.head?_eq_some_iff.mp next
    have reads := @Reads.satisfy Char rest keep c (Bool.eq_true_of_not_eq_false kept)
    obtain ⟨s, done, -⟩ := reads place parts
    rw [failed] at done
    cases done

theorem takes_satisfy (keep : Char → Bool) :
    TakesText (Parser.satisfy keep) fun chars c _ => chars = [c] ∧ keep c = true := by
  refine (Takes.satisfy Cursor.areWays keep).imp ?_
  rintro _ c _ ⟨kept, span, rfl⟩
  exact ⟨rfl, kept⟩

theorem takes_exactly (items : List Char) :
    TakesText (Parser.exactly items) fun chars _ _ => chars = items := by
  refine (Takes.exactly Cursor.areWays items).imp ?_
  rintro _ _ _ ⟨read, rfl, rfl⟩
  rw [List.map_id]

theorem takes_whole : TakesText whole fun chars digits _ => chars = digits ∧ IsWhole digits := by
  apply Takes.either
  · refine (takes_satisfy _).seq Cursor.areWays (takes_many_satisfy Char.isDigit) ?_
    rintro word c place word' digits place' ⟨first, kept⟩ - ⟨rfl, all, -⟩
    simp only [Bool.decide_and, Bool.decide_eq_true, Bool.and_eq_true, decide_eq_true_eq] at kept
    exact ⟨by simp [first], .digits kept.1 kept.2 all⟩
  · refine (takes_exactly ['0']).map ?_
    rintro word _ place first
    exact ⟨first, .zero⟩

private theorem takes_float :
    TakesText Lexer.float fun chars token rest => Lexeme chars token ∧ Longest chars rest := by
  have front : TakesText (.skipRight whole (.just '.')) fun chars digits _ =>
      chars = digits ++ ['.'] ∧ IsWhole digits := by
    refine takes_whole.seq Cursor.areWays (takes_exactly ['.']) ?_
    rintro word digits place word' _ place' ⟨same, form⟩ - point
    exact ⟨by rw [List.map_append, same, point], form⟩
  have back : TakesText (.optional (.manyOnce digit)) fun chars digits _ =>
      chars = digits.getD [] ∧ ∀ c ∈ chars, c.isDigit = true := by
    have once : TakesText (.manyOnce digit) fun chars digits _ =>
        chars = digits ∧ ∀ c ∈ chars, c.isDigit = true := by
      refine (takes_satisfy _).seq Cursor.areWays (takes_many_satisfy Char.isDigit) ?_
      rintro word c place word' digits place' ⟨first, kept⟩ - ⟨rfl, all, -⟩
      rw [List.map_append, first]
      exact ⟨rfl, List.forall_mem_cons.mpr ⟨kept, all⟩⟩
    exact once.optional Cursor.areWays (fun _ _ _ found => found) fun _ => ⟨rfl, nofun⟩
  unfold Lexer.float
  refine (front.both Cursor.areWays back).map ?_
  rintro _ ⟨front, back⟩ place ⟨word, word', _, rfl, ⟨same, form⟩, -, same', digits⟩
  rw [same'] at digits
  rw [List.map_append, same, same', List.append_assoc]
  exact ⟨.float form digits, form.longest _ _⟩

private theorem takes_integer :
    TakesText integer fun chars token rest => Lexeme chars token ∧ Longest chars rest := by
  refine takes_whole.refine ?_
  rintro word digits token place ⟨rfl, form⟩ read
  dsimp only at read
  split at read
  · rename_i small
    cases read
    have longest := form.longest [] place.items
    rw [List.append_nil] at longest
    exact ⟨.int form small, longest⟩
  · cases read

private theorem takes_word :
    TakesText Lexer.word fun chars token rest => Lexeme chars token ∧ Longest chars rest := by
  have chars : TakesText (Parser.seq List.cons (Parser.satisfy startsWord)
      (Parser.many (.satisfy continuesWord))) fun chars found rest =>
        chars = found ∧ isWord (String.ofList found) = true ∧
          ∀ c ∈ rest.head?, continuesWord c = false := by
    refine (takes_satisfy _).seq Cursor.areWays (takes_many_satisfy continuesWord) ?_
    rintro word c place word' found place' ⟨first, starts⟩ - ⟨rfl, all, stop⟩
    exact ⟨by rw [List.map_append, first]; rfl, (isWord_cons c _).mpr ⟨starts, all⟩, stop⟩
  refine chars.map ?_
  rintro word _ place ⟨rfl, spelled, stop⟩
  have lexeme := Lexeme.word spelled
  have longest := longest_of_isWord spelled stop
  rw [String.toList_ofList] at lexeme longest
  exact ⟨lexeme, longest⟩

private theorem takes_sign :
    TakesText Lexer.sign fun chars token rest => Lexeme chars token ∧ Longest chars rest := by
  intro cursor s done clean
  obtain ⟨before, p, after, parts, read, failing⟩ := Parser.choice_eq_done done
  obtain ⟨earlier, others, known, rfl, behind⟩ := List.map_eq_append_iff.mp parts
  obtain ⟨⟨text, token⟩, later, rfl, rfl, rfl⟩ := List.map_eq_cons_iff.mp behind
  have named : TakesText ((Parser.exactly text.toList).map fun _ => token) fun chars found _ =>
      chars = text.toList ∧ found = token :=
    (takes_exactly text.toList).map fun _ _ _ same => ⟨same, rfl⟩
  obtain ⟨word, passes, same, value⟩ := named cursor s read clean
  have items : cursor.items = text.toList ++ s.rest.items := by
    rw [Cursor.items, passes.ahead, List.map_append, same]
    rfl
  refine ⟨word, passes, ?_⟩
  change Lexeme (word.map Prod.fst) s.value ∧ Longest (word.map Prod.fst) s.rest.items
  rw [same, value]
  have member : (text, token) ∈ signs := by
    rw [known]
    exact List.mem_append_right _ (List.mem_cons_self ..)
  refine ⟨.sign member, @longest_of_sign _ earlier later (text, token) known ?_⟩
  rintro ⟨text', token'⟩ member ⟨behind, more⟩
  have reads : Reads ((Parser.exactly text'.toList).map fun _ => token') (text'.toList ++ behind)
      (fun _ => True) behind := (Reads.exactly _ _).map fun _ _ => trivial
  obtain ⟨t, found, -⟩ := reads cursor (items.trans more.symm)
  obtain ⟨recorded, fault, failed⟩ := failing _ (List.mem_map_of_mem member)
  cases failed.symm.trans found

theorem takes_token :
    TakesText Lexer.token fun chars token rest => Lexeme chars token ∧ Longest chars rest :=
  ((takes_float.either takes_integer).either takes_word).either takes_sign

end Taken

section Alone

variable {chars : List Char} {token : Token}

private theorem reads_float {front back : List Char} (form : IsWhole front)
    (digits : ∀ c ∈ back, c.isDigit = true) :
    Reads Lexer.token (front ++ '.' :: back) (· = .float (.ofRatio false
      (natOfDigits (front ++ back)) (Nat.pow 10 back.length))) [] := by
  have point : Reads (.skipRight whole (.just '.')) (front ++ '.' :: back) (· = front) back :=
    (reads_whole form (by simp)).skipRight (.just '.' back)
  have decimals : Reads (Parser.optional (Parser.manyOnce digit)) back
      (fun found => found.getD [] = back) [] := by
    cases back with
    | nil => exact (Reads.optional_none (.seq_left _ _ (.satisfy nofun))).imp (by simp)
    | cons c more =>
      obtain ⟨first, all⟩ := List.forall_mem_cons.mp digits
      have once : Reads (Parser.manyOnce digit) (c :: more) (· = c :: more) [] := by
        have rest := (@reads_many_satisfy [] Char.isDigit more all nofun).reads
        rw [List.append_nil] at rest
        refine (Reads.satisfy first).seq rest ?_
        rintro _ _ rfl rfl
        rfl
      refine once.optional.imp ?_
      rintro _ ⟨_, rfl, rfl⟩
      rfl
  refine .either_left _ (.either_left _ (.either_left _ ?_))
  unfold Lexer.float
  refine (point.both decimals).map ?_
  rintro ⟨_, found⟩ ⟨rfl, same⟩
  simp only [same]

/-- The text of a token is read as that token. -/
theorem Lexeme.reads (lexeme : Lexeme chars token) : Reads Lexer.token chars (· = token) [] := by
  have bounded : Bounded [] := nofun
  rw [← List.append_nil chars]
  cases lexeme with
  | float form digits =>
    rw [List.append_nil]
    exact reads_float form digits
  | int form small => exact reads_digits form small bounded
  | word spelled => exact reads_word spelled bounded
  | @sign text token known =>
    have spelled : ∀ sign ∈ signs, sign.2.isSpelled = true ∧ sign.2.text = sign.1 := by decide
    obtain ⟨spelled, same⟩ := spelled (text, token) known
    simp only at spelled same
    rw [← same]
    exact reads_token spelled (.inr bounded)

end Alone

end Wabbit.Token
