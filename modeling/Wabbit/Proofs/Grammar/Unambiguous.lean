import Wabbit.Proofs.Grammar.Phrases

/-!
Which tokens can begin a phrase of a category and which can continue it. With one token of lookahead
these decide every choice of the grammar, except for that between an assignment and an expression,
so no two derivations have the same tokens.
-/

namespace Wabbit.Source

namespace Category

/-- Whether an expression can begin with the token. -/
def startsAtom : Token → Bool
  | .int _ | .float _ | .ident _ | .parenOpen => true
  | _ => false

/-- Whether the token stands for an operator of the rank. -/
def links? (rank : Rank) (token : Token) : Bool :=
  match rank with
  | .product => token == .star || token == .slash
  | .sum => token == .plus || token == .minus

/-- Whether a statement can begin with the token, which is not that of an expression. -/
def startsStatement : Token → Bool
  | .kwVar | .kwFunc | .kwIf | .kwWhile | .kwPrint | .kwReturn => true
  | _ => false

/-- Whether a phrase can begin with the token. -/
def starts : Category → Token → Bool
  | expr .atom, token => startsAtom token
  | expr _, token => startsAtom token || token == .minus
  | links rank, token => links? rank token
  | entry .argument, token | list .argument, token => startsAtom token || token == .minus
  | entry .parameter, .ident _ | list .parameter, .ident _ => true
  | entry .parameter, _ | list .parameter, _ => false
  | others _, token => token == .comma
  | statement, token | statements, token =>
    startsStatement token || startsAtom token || token == .minus

/-- Whether a phrase can have no tokens. -/
def mayBeEmpty : Category → Bool
  | expr _ | entry _ | statement => false
  | links _ | list _ | others _ | statements => true

/-- Whether a phrase can begin with the token, or be empty if there is none. -/
def opens (category : Category) : Option Token → Bool
  | none => category.mayBeEmpty
  | some token => category.starts token

/-- Whether the token stands for a comparison. -/
def compares : Token → Bool
  | .less | .lessEq | .greater | .greaterEq | .equal | .notEqual => true
  | _ => false

/-- Whether a phrase can go on with the token, behind what would be a phrase without it. -/
def continues : Category → Token → Bool
  | expr .atom, token | expr .unary, token => token == .parenOpen
  | expr (.chain .product), token | links .product, token =>
    token == .parenOpen || links? .product token
  | expr (.chain .sum), token | links .sum, token =>
    token == .parenOpen || links? .product token || links? .sum token
  | expr .comparison, token | entry .argument, token =>
    token == .parenOpen || links? .product token || links? .sum token || compares token
  | entry .parameter, _ => false
  | list _, token | others _, token => token != .parenClose
  | statement, token => token == .kwElse
  | statements, token => token != .curlyClose

/-- No phrase of the category goes on with the tokens. -/
def Ends (category : Category) (rest : List Token) : Prop :=
  ∀ token ∈ rest.head?, category.continues token = false

end Category

namespace Category

/-- A phrase that cannot be empty decides how what begins with it begins. -/
theorem opens_append {category wider : Category} {tokens : List Token}
    (opened : category.opens tokens.head? = true) (nonempty : category.mayBeEmpty = false)
    (wide : ∀ token, category.starts token = true → wider.starts token = true)
    (rest : List Token) : wider.opens (tokens ++ rest).head? = true := by
  cases tokens with
  | nil => simp [opens, nonempty] at opened
  | cons token more => exact wide token opened

private theorem starts_operand (rank : Rank) (token : Token) :
    (expr rank.operand).starts token = (startsAtom token || token == .minus) := by
  cases rank <;> rfl

@[simp]
theorem ends_nil (category : Category) : category.Ends [] := nofun

@[simp]
theorem ends_cons {category : Category} {token : Token} {rest : List Token} :
    category.Ends (token :: rest) ↔ category.continues token = false := by
  simp [Ends]

/-- Whether phrases can assign values. -/
def mayAssign : Category → Bool
  | statement | statements => true
  | _ => false

end Category

namespace Phrase

open Category

variable {category : Category}

theorem opens_tokens (phrase : Phrase category) : category.opens phrase.tokens.head? = true := by
  induction phrase with
  | link op ranked operand rest _ _ =>
    subst ranked
    cases op <;> rfl
  | @chain rank first rest ih _ =>
    refine opens_append ih rfl (fun token started => ?_) _
    rwa [starts_operand] at started
  | unary signs inner ih =>
    cases signs with
    | zero =>
      have opened : (expr .unary).opens (inner.tokens ++ []).head? = true :=
        opens_append ih rfl (fun token started => by simp_all [starts]) []
      simpa using opened
    | succ signs => rfl
  | sum inner ih => exact ih
  | compare left op right ih _ => exact opens_append ih rfl (fun _ started => started) _
  | argument value ih => exact ih
  | @entries listed first others ih _ =>
    refine opens_append ih rfl (fun token started => ?_) _
    cases listed with
    | argument => exact started
    | parameter => cases token <;> trivial
  | eval value ih =>
    refine opens_append ih rfl (fun token started => ?_) _
    simp only [starts, Bool.or_assoc] at started ⊢
    simp [started]
  | statements first rest ih _ =>
    refine opens_append ih rfl (fun token started => ?_) _
    simpa only [starts] using started
  | _ => rfl

/-- The links behind an operand do not continue the operand. -/
theorem ends_links {rank : Rank} (links : Phrase (.links rank)) {rest : List Token}
    (ends : Ends (.links rank) rest) : Ends (.expr rank.operand) (links.tokens ++ rest) := by
  cases links with
  | noLinks =>
    intro token next
    have ended := ends token next
    cases rank <;> simp_all [continues]
  | link op ranked operand more =>
    rintro token ⟨⟩
    subst ranked
    cases op <;> rfl

/-- The entries behind the first do not continue it. -/
theorem ends_others {listed : Entry} (others : Phrase (.others listed)) {rest : List Token}
    (ends : Ends (.others listed) rest) : Ends (.entry listed) (others.tokens ++ rest) := by
  cases others with
  | noOthers =>
    intro token next
    have ended : token = .parenClose := by simpa [continues] using ends token next
    subst ended
    cases listed <;> rfl
  | trailing | other =>
    rintro token ⟨⟩
    cases listed <;> rfl

private theorem assign_not_mem (phrase : Phrase category) (expression : category.mayAssign = false) :
    .assign ∉ phrase.tokens := by
  induction phrase with
  | link op ranked operand rest ih ih' => cases op <;> simp_all [tokens, mayAssign, Arithmetic.token]
  | compare left op right ih ih' => cases op <;> simp_all [tokens, mayAssign, Comparison.token]
  | parameter name kind => cases kind <;> simp [tokens, Kind.token]
  | _ => simp_all [tokens, mayAssign]

/-- No other derivation has the same tokens, whatever stands behind the two, as long as it does not
continue them. -/
def Unique (phrase : Phrase category) : Prop :=
  ∀ (phrase' : Phrase category) (rest rest' : List Token),
    phrase.tokens ++ rest = phrase'.tokens ++ rest' → Ends category rest → Ends category rest' →
      phrase = phrase' ∧ rest = rest'

private theorem unique_call (callee : String) {arguments : Phrase (.list .argument)}
    (unique : arguments.Unique) : (call callee arguments).Unique := by
  intro phrase' rest rest' same ends ends'
  cases phrase' with
  | call callee' arguments' =>
    simp only [tokens, List.cons_append, List.append_assoc, List.cons.injEq, Token.ident.injEq,
      true_and] at same
    obtain ⟨rfl, same⟩ := same
    obtain ⟨rfl, behind⟩ := unique arguments' _ _ same (ends_cons.mpr rfl) (ends_cons.mpr rfl)
    simpa using behind
  | var name =>
    simp only [tokens, List.cons_append, List.nil_append, List.cons.injEq] at same
    simp [← same.2, continues] at ends'
  | _ => cases same

private theorem unique_var (name : String) : (var name).Unique := by
  intro phrase' rest rest' same ends ends'
  cases phrase' with
  | var name' => simp_all [tokens]
  | call callee arguments =>
    simp only [tokens, List.cons_append, List.nil_append, List.cons.injEq] at same
    simp [same.2, continues] at ends
  | _ => cases same

private theorem unique_group {inner : Phrase (.expr .comparison)} (unique : inner.Unique) :
    (group inner).Unique := by
  intro phrase' rest rest' same ends ends'
  cases phrase' with
  | group inner' =>
    simp only [tokens, List.cons_append, List.append_assoc, List.cons.injEq, true_and] at same
    obtain ⟨rfl, behind⟩ := unique inner' _ _ same (ends_cons.mpr rfl) (ends_cons.mpr rfl)
    simpa using behind
  | _ => cases same

/-- A phrase that is not empty does not begin with a token that cannot begin it. -/
theorem tokens_ne (phrase : Phrase category) (nonempty : category.mayBeEmpty = false) {token : Token}
    (other : category.starts token = false) (rest more : List Token) :
    phrase.tokens ++ rest ≠ token :: more := by
  intro same
  have opened := opens_append phrase.opens_tokens nonempty (fun _ started => started) rest
  simp [same, opens, other] at opened

/-- Signs in front of atoms are as many if the tokens are the same. -/
theorem replicate_minus_unique {inner inner' : Phrase (.expr .atom)} {signs signs' : Nat}
    {rest rest' : List Token}
    (same : List.replicate signs .minus ++ (inner.tokens ++ rest) =
      List.replicate signs' .minus ++ (inner'.tokens ++ rest')) :
    signs = signs' ∧ inner.tokens ++ rest = inner'.tokens ++ rest' := by
  induction signs generalizing signs' with
  | zero =>
    cases signs' with
    | zero => exact ⟨rfl, same⟩
    | succ signs' => exact absurd same (inner.tokens_ne rfl rfl _ _)
  | succ signs ih =>
    cases signs' with
    | zero => exact absurd same.symm (inner'.tokens_ne rfl rfl _ _)
    | succ signs' =>
      obtain ⟨rfl, behind⟩ := ih (List.tail_eq_of_cons_eq same)
      exact ⟨rfl, behind⟩

private theorem unique_unary (signs : Nat) {inner : Phrase (.expr .atom)} (unique : inner.Unique) :
    (unary signs inner).Unique := by
  intro phrase' rest rest' same ends ends'
  cases phrase' with
  | unary signs' inner' =>
    simp only [tokens, List.append_assoc] at same
    obtain ⟨rfl, behind⟩ := replicate_minus_unique same
    obtain ⟨rfl, ending⟩ := unique inner' _ _ behind ends ends'
    exact ⟨rfl, ending⟩

private theorem unique_chain {rank : Rank} {first : Phrase (.expr rank.operand)}
    {links : Phrase (.links rank)} (unique : first.Unique) (unique' : links.Unique) :
    (chain first links).Unique := by
  intro phrase' rest rest' same ends ends'
  cases phrase' with
  | chain first' links' =>
    simp only [tokens, List.append_assoc] at same
    have ended : Ends (.links rank) rest := by cases rank <;> exact ends
    have ended' : Ends (.links rank) rest' := by cases rank <;> exact ends'
    obtain ⟨rfl, behind⟩ := unique first' _ _ same (links.ends_links ended) (links'.ends_links ended')
    obtain ⟨rfl, ending⟩ := unique' links' _ _ behind ended ended'
    exact ⟨rfl, ending⟩

/-- The sign of an operator continues the links of its rank. -/
theorem continues_token (op : Arithmetic) : (links (Rank.of op)).continues op.token = true := by
  cases op <;> rfl

private theorem token_injective {op op' : Arithmetic} (same : op.token = op'.token) : op = op' := by
  cases op <;> cases op' <;> cases same <;> rfl

private theorem unique_noLinks {rank : Rank} : (@noLinks rank).Unique := by
  intro phrase' rest rest' same ends ends'
  cases phrase' with
  | noLinks => exact ⟨rfl, same⟩
  | link op ranked operand more =>
    subst ranked
    have next : rest = op.token :: (operand.tokens ++ more.tokens ++ rest') := same
    simp [next, continues_token] at ends

private theorem unique_link {rank : Rank} {op : Arithmetic} (ranked : Rank.of op = rank)
    {operand : Phrase (.expr rank.operand)} {more : Phrase (.links rank)}
    (unique : operand.Unique) (unique' : more.Unique) : (link op ranked operand more).Unique := by
  intro phrase' rest rest' same ends ends'
  cases phrase' with
  | noLinks =>
    subst ranked
    have next : op.token :: (operand.tokens ++ more.tokens ++ rest) = rest' := same
    simp [← next, continues_token] at ends'
  | link op' ranked' operand' more' =>
    simp only [tokens, List.cons_append, List.append_assoc, List.cons.injEq] at same
    obtain ⟨op_same, same⟩ := same
    obtain rfl := token_injective op_same
    obtain ⟨rfl, behind⟩ := unique operand' _ _ same (more.ends_links ends) (more'.ends_links ends')
    obtain ⟨rfl, ending⟩ := unique' more' _ _ behind ends ends'
    exact ⟨rfl, ending⟩

/-- What does not continue an expression does not continue its first sum either. -/
theorem ends_sum {rest : List Token} (ends : Ends (.expr .comparison) rest) :
    Ends (.expr (.chain .sum)) rest := by
  intro token next
  have ended := ends token next
  simp_all [continues]

theorem continues_comparison (op : Comparison) :
    (expr .comparison).continues op.token = true ∧
      (expr (.chain .sum)).continues op.token = false := by
  cases op <;> exact ⟨rfl, rfl⟩

private theorem comparison_injective {op op' : Comparison} (same : op.token = op'.token) : op = op' := by
  cases op <;> cases op' <;> cases same <;> rfl

/-- A sum alone is not the beginning of a comparison. -/
theorem sum_tokens_ne {inner left : Phrase (.expr (.chain .sum))} {op : Comparison}
    {rest more : List Token} (unique : inner.Unique) (ends : Ends (.expr .comparison) rest) :
    inner.tokens ++ rest ≠ left.tokens ++ op.token :: more := by
  intro same
  obtain ⟨-, behind⟩ := unique left _ _ same (ends_sum ends)
    (ends_cons.mpr (continues_comparison op).2)
  simp [behind, (continues_comparison op).1] at ends

private theorem unique_sum {inner : Phrase (.expr (.chain .sum))} (unique : inner.Unique) :
    (sum inner).Unique := by
  intro phrase' rest rest' same ends ends'
  cases phrase' with
  | sum inner' =>
    obtain ⟨rfl, behind⟩ := unique inner' _ _ same (ends_sum ends) (ends_sum ends')
    exact ⟨rfl, behind⟩
  | compare left op right =>
    simp only [tokens, List.append_assoc, List.cons_append] at same
    exact absurd same (sum_tokens_ne unique ends)

private theorem unique_compare {left right : Phrase (.expr (.chain .sum))} (op : Comparison)
    (unique : left.Unique) (unique' : right.Unique) : (compare left op right).Unique := by
  intro phrase' rest rest' same ends ends'
  cases phrase' with
  | sum inner =>
    simp only [tokens, List.append_assoc, List.cons_append] at same
    obtain ⟨-, behind⟩ := unique inner _ _ same (ends_cons.mpr (continues_comparison op).2)
      (ends_sum ends')
    simp [← behind, (continues_comparison op).1] at ends'
  | compare left' op' right' =>
    simp only [tokens, List.append_assoc, List.cons_append] at same
    obtain ⟨rfl, behind⟩ := unique left' _ _ same (ends_cons.mpr (continues_comparison op).2)
      (ends_cons.mpr (continues_comparison op').2)
    obtain ⟨op_same, further⟩ := List.cons.inj behind
    obtain rfl := comparison_injective op_same
    obtain ⟨rfl, ending⟩ := unique' right' _ _ further (ends_sum ends) (ends_sum ends')
    exact ⟨rfl, ending⟩

theorem kind_injective {kind kind' : Kind} (same : kind.token = kind'.token) : kind = kind' := by
  cases kind <;> cases kind' <;> cases same <;> rfl

private theorem unique_parameter (name : String) (kind : Kind) : (parameter name kind).Unique := by
  intro phrase' rest rest' same ends ends'
  cases phrase' with
  | parameter name' kind' =>
    simp only [tokens, List.cons_append, List.nil_append, List.cons.injEq, Token.ident.injEq] at same
    obtain ⟨rfl, kind_same, behind⟩ := same
    exact ⟨by rw [kind_injective kind_same], behind⟩

/-- An entry does not begin with what ends the list. -/
theorem entry_tokens_ne {listed : Entry} (first : Phrase (.entry listed)) {rest more : List Token}
    (ends : Ends (.list listed) rest) : first.tokens ++ more ≠ rest := by
  have opened : (Category.entry listed).opens (first.tokens ++ more).head? = true :=
    opens_append first.opens_tokens rfl (fun _ started => started) more
  cases rest with
  | nil =>
    intro same
    simp [same, opens, mayBeEmpty] at opened
  | cons token behind =>
    have closing : token = .parenClose := by simpa [continues] using ends
    subst closing
    cases listed <;> exact first.tokens_ne rfl rfl _ _

private theorem unique_noEntries {listed : Entry} : (@noEntries listed).Unique := by
  intro phrase' rest rest' same ends ends'
  cases phrase' with
  | noEntries => exact ⟨rfl, same⟩
  | entries first others =>
    simp only [tokens, List.append_assoc, List.nil_append] at same
    exact absurd same.symm (entry_tokens_ne first ends)

private theorem unique_entries {listed : Entry} {first : Phrase (.entry listed)}
    {others : Phrase (.others listed)} (unique : first.Unique) (unique' : others.Unique) :
    (entries first others).Unique := by
  intro phrase' rest rest' same ends ends'
  cases phrase' with
  | noEntries =>
    simp only [tokens, List.append_assoc, List.nil_append] at same
    exact absurd same (entry_tokens_ne first ends')
  | entries first' others' =>
    simp only [tokens, List.append_assoc] at same
    obtain ⟨rfl, behind⟩ := unique first' _ _ same (others.ends_others ends)
      (others'.ends_others ends')
    obtain ⟨rfl, ending⟩ := unique' others' _ _ behind ends ends'
    exact ⟨rfl, ending⟩

private theorem unique_noOthers {listed : Entry} : (@noOthers listed).Unique := by
  intro phrase' rest rest' same ends ends'
  cases phrase' with
  | noOthers => exact ⟨rfl, same⟩
  | trailing | other =>
    simp only [tokens, List.nil_append, List.cons_append] at same
    simp [same, continues] at ends

private theorem unique_trailing {listed : Entry} : (@trailing listed).Unique := by
  intro phrase' rest rest' same ends ends'
  cases phrase' with
  | noOthers =>
    simp only [tokens, List.nil_append, List.cons_append] at same
    simp [← same, continues] at ends'
  | trailing => exact ⟨rfl, by simpa [tokens] using same⟩
  | other first others =>
    simp only [tokens, List.nil_append, List.cons_append, List.cons.injEq, true_and,
      List.append_assoc] at same
    exact absurd same.symm (entry_tokens_ne first ends)

private theorem unique_other {listed : Entry} {first : Phrase (.entry listed)}
    {others : Phrase (.others listed)} (unique : first.Unique) (unique' : others.Unique) :
    (other first others).Unique := by
  intro phrase' rest rest' same ends ends'
  cases phrase' with
  | noOthers =>
    simp only [tokens, List.nil_append, List.cons_append] at same
    simp [← same, continues] at ends'
  | trailing =>
    simp only [tokens, List.nil_append, List.cons_append, List.cons.injEq, true_and,
      List.append_assoc] at same
    exact absurd same (entry_tokens_ne first ends')
  | other first' others' =>
    simp only [tokens, List.cons_append, List.append_assoc, List.cons.injEq, true_and] at same
    obtain ⟨rfl, behind⟩ := unique first' _ _ same (others.ends_others ends)
      (others'.ends_others ends')
    obtain ⟨rfl, ending⟩ := unique' others' _ _ behind ends ends'
    exact ⟨rfl, ending⟩

/-- What follows an optional kind shows whether it is there. -/
theorem kindTokens_unique {kind kind' : Option Kind} {token token' : Token}
    {rest rest' : List Token} (plain : ∀ kind : Kind, token ≠ kind.token)
    (plain' : ∀ kind : Kind, token' ≠ kind.token)
    (same : kindTokens kind ++ token :: rest = kindTokens kind' ++ token' :: rest') :
    kind = kind' ∧ token = token' ∧ rest = rest' := by
  match kind, kind' with
  | none, none => exact ⟨rfl, List.cons.inj same⟩
  | none, some kind' => exact absurd (List.cons.inj same).1 (plain kind')
  | some kind, none => exact absurd (List.cons.inj same).1.symm (plain' kind)
  | some kind, some kind' =>
    obtain ⟨kind_same, behind⟩ := List.cons.inj same
    exact ⟨by rw [kind_injective kind_same], List.cons.inj behind⟩

theorem semicolon_ne_kind (kind : Kind) : Token.semicolon ≠ kind.token := by cases kind <;> nofun

theorem assign_ne_kind (kind : Kind) : Token.assign ≠ kind.token := by cases kind <;> nofun

theorem curlyOpen_ne_kind (kind : Kind) : Token.curlyOpen ≠ kind.token := by cases kind <;> nofun

/-- An expression statement begins like an expression. -/
theorem eval_tokens_ne (value : Phrase (.expr .comparison)) {token : Token}
    (other : (expr .comparison).starts token = false) (rest more : List Token) :
    (eval value).tokens ++ rest ≠ token :: more := by
  rw [tokens, List.append_assoc]
  exact value.tokens_ne rfl other _ _

/-- An expression statement does not begin like an assignment. -/
theorem eval_tokens_ne_assign (value : Phrase (.expr .comparison)) (name : String)
    (rest more : List Token) :
    (eval value).tokens ++ rest ≠ .ident name :: .assign :: more := by
  intro same
  rw [tokens, List.append_assoc] at same
  have absent := value.assign_not_mem rfl
  match parts : value.tokens with
  | [] => simp [parts] at same
  | [_] => simp [parts] at same
  | _ :: second :: _ =>
    simp only [parts, List.cons_append, List.cons.injEq] at same
    simp [parts, same.2.1] at absent

/-- Statements in braces are followed by what follows the braces. -/
theorem unique_braced {body : Phrase .statements} (unique : body.Unique) {body' : Phrase .statements}
    {rest rest' : List Token} (same : braced body.tokens ++ rest = braced body'.tokens ++ rest') :
    body = body' ∧ rest = rest' := by
  simp only [braced, List.cons_append, List.append_assoc, List.cons.injEq, true_and] at same
  obtain ⟨rfl, behind⟩ := unique body' _ _ same (ends_cons.mpr rfl) (ends_cons.mpr rfl)
  exact ⟨rfl, by simpa using behind⟩

private theorem unique_declare (name : String) (kind : Kind) : (declare name kind).Unique := by
  intro phrase' rest rest' same ends ends'
  cases phrase' with
  | declare name' kind' =>
    simp only [tokens, List.cons_append, List.nil_append, List.cons.injEq, Token.ident.injEq,
      true_and] at same
    obtain ⟨rfl, kind_same, behind⟩ := same
    exact ⟨by rw [kind_injective kind_same], behind⟩
  | define name' kind' value =>
    simp only [tokens, List.cons_append, List.append_assoc, List.nil_append, List.cons.injEq,
      true_and] at same
    obtain ⟨-, clash, -⟩ :=
      @kindTokens_unique (some kind) _ _ _ _ _ semicolon_ne_kind assign_ne_kind same.2
    cases clash
  | eval value => exact absurd same.symm (eval_tokens_ne value rfl _ _)
  | _ => cases same

private theorem unique_define (name : String) (kind : Option Kind) {value : Phrase (.expr .comparison)}
    (unique : value.Unique) : (define name kind value).Unique := by
  intro phrase' rest rest' same ends ends'
  cases phrase' with
  | declare name' kind' =>
    simp only [tokens, List.cons_append, List.append_assoc, List.nil_append, List.cons.injEq,
      true_and] at same
    obtain ⟨-, clash, -⟩ := @kindTokens_unique _ (some kind') _ _ _ _ assign_ne_kind
      semicolon_ne_kind same.2
    cases clash
  | define name' kind' value' =>
    simp only [tokens, List.cons_append, List.append_assoc, List.nil_append, List.cons.injEq,
      Token.ident.injEq, true_and] at same
    obtain ⟨rfl, same⟩ := same
    obtain ⟨rfl, -, behind⟩ := kindTokens_unique assign_ne_kind assign_ne_kind same
    obtain ⟨rfl, ending⟩ := unique value' _ _ behind (ends_cons.mpr rfl) (ends_cons.mpr rfl)
    exact ⟨rfl, List.tail_eq_of_cons_eq ending⟩
  | eval value' => exact absurd same.symm (eval_tokens_ne value' rfl _ _)
  | _ => cases same

private theorem unique_function (name : String) {parameters : Phrase (.list .parameter)}
    (result : Option Kind) {body : Phrase .statements} (unique : parameters.Unique)
    (unique' : body.Unique) : (function name parameters result body).Unique := by
  intro phrase' rest rest' same ends ends'
  cases phrase' with
  | function name' parameters' result' body' =>
    simp only [tokens, List.cons_append, List.append_assoc, List.cons.injEq, Token.ident.injEq,
      true_and] at same
    obtain ⟨rfl, same⟩ := same
    obtain ⟨rfl, behind⟩ := unique parameters' _ _ same (ends_cons.mpr rfl) (ends_cons.mpr rfl)
    obtain ⟨rfl, -, further⟩ := kindTokens_unique curlyOpen_ne_kind curlyOpen_ne_kind
      (List.tail_eq_of_cons_eq behind)
    obtain ⟨rfl, ending⟩ := unique_braced unique' (congrArg (Token.curlyOpen :: ·) further)
    exact ⟨rfl, ending⟩
  | eval value' => exact absurd same.symm (eval_tokens_ne value' rfl _ _)
  | _ => cases same

/-- What follows a condition is the same if the tokens are. -/
theorem unique_condition {condition condition' : Phrase (.expr .comparison)}
    {body body' : Phrase .statements} (unique : condition.Unique) (unique' : body.Unique)
    {rest rest' : List Token}
    (same : condition.tokens ++ (braced body.tokens ++ rest) =
      condition'.tokens ++ (braced body'.tokens ++ rest')) :
    condition = condition' ∧ body = body' ∧ rest = rest' := by
  obtain ⟨rfl, behind⟩ := unique condition' _ _ same (ends_cons.mpr rfl) (ends_cons.mpr rfl)
  exact ⟨rfl, unique_braced unique' behind⟩

private theorem unique_branch {condition : Phrase (.expr .comparison)} {ifTrue : Phrase .statements}
    (unique : condition.Unique) (unique' : ifTrue.Unique) : (branch condition ifTrue).Unique := by
  intro phrase' rest rest' same ends ends'
  cases phrase' with
  | branch condition' ifTrue' =>
    simp only [tokens, List.cons_append, List.append_assoc, List.cons.injEq, true_and] at same
    obtain ⟨rfl, rfl, ending⟩ := unique_condition unique unique' same
    exact ⟨rfl, ending⟩
  | branchElse condition' ifTrue' ifFalse' =>
    simp only [tokens, List.cons_append, List.append_assoc, List.cons.injEq, true_and] at same
    obtain ⟨rfl, rfl, ending⟩ := unique_condition unique unique' same
    simp [ending, continues] at ends
  | eval value' => exact absurd same.symm (eval_tokens_ne value' rfl _ _)
  | _ => cases same

private theorem unique_branchElse {condition : Phrase (.expr .comparison)}
    {ifTrue ifFalse : Phrase .statements} (unique : condition.Unique) (unique' : ifTrue.Unique)
    (unique'' : ifFalse.Unique) : (branchElse condition ifTrue ifFalse).Unique := by
  intro phrase' rest rest' same ends ends'
  cases phrase' with
  | branch condition' ifTrue' =>
    simp only [tokens, List.cons_append, List.append_assoc, List.cons.injEq, true_and] at same
    obtain ⟨rfl, rfl, ending⟩ := unique_condition unique unique' same
    simp [← ending, continues] at ends'
  | branchElse condition' ifTrue' ifFalse' =>
    simp only [tokens, List.cons_append, List.append_assoc, List.cons.injEq, true_and] at same
    obtain ⟨rfl, rfl, behind⟩ := unique_condition unique unique' same
    obtain ⟨rfl, ending⟩ := unique_braced unique'' (List.tail_eq_of_cons_eq behind)
    exact ⟨rfl, ending⟩
  | eval value' => exact absurd same.symm (eval_tokens_ne value' rfl _ _)
  | _ => cases same

private theorem unique_loop {condition : Phrase (.expr .comparison)} {body : Phrase .statements}
    (unique : condition.Unique) (unique' : body.Unique) : (loop condition body).Unique := by
  intro phrase' rest rest' same ends ends'
  cases phrase' with
  | loop condition' body' =>
    simp only [tokens, List.cons_append, List.append_assoc, List.cons.injEq, true_and] at same
    obtain ⟨rfl, rfl, ending⟩ := unique_condition unique unique' same
    exact ⟨rfl, ending⟩
  | eval value' => exact absurd same.symm (eval_tokens_ne value' rfl _ _)
  | _ => cases same

/-- What follows a semicolon is the same if the tokens are. -/
theorem unique_terminated {value value' : Phrase (.expr .comparison)} (unique : value.Unique)
    {rest rest' : List Token}
    (same : value.tokens ++ ([.semicolon] ++ rest) = value'.tokens ++ ([.semicolon] ++ rest')) :
    value = value' ∧ rest = rest' := by
  obtain ⟨rfl, behind⟩ := unique value' _ _ same (ends_cons.mpr rfl) (ends_cons.mpr rfl)
  exact ⟨rfl, List.tail_eq_of_cons_eq behind⟩

private theorem unique_print {value : Phrase (.expr .comparison)} (unique : value.Unique) :
    (print value).Unique := by
  intro phrase' rest rest' same ends ends'
  cases phrase' with
  | print value' =>
    simp only [tokens, List.cons_append, List.append_assoc, List.cons.injEq, true_and] at same
    obtain ⟨rfl, ending⟩ := unique_terminated unique same
    exact ⟨rfl, ending⟩
  | eval value' => exact absurd same.symm (eval_tokens_ne value' rfl _ _)
  | _ => cases same

private theorem unique_ret {value : Phrase (.expr .comparison)} (unique : value.Unique) :
    (ret value).Unique := by
  intro phrase' rest rest' same ends ends'
  cases phrase' with
  | ret value' =>
    simp only [tokens, List.cons_append, List.append_assoc, List.cons.injEq, true_and] at same
    obtain ⟨rfl, ending⟩ := unique_terminated unique same
    exact ⟨rfl, ending⟩
  | eval value' => exact absurd same.symm (eval_tokens_ne value' rfl _ _)
  | _ => cases same

private theorem unique_assign (name : String) {value : Phrase (.expr .comparison)}
    (unique : value.Unique) :
    (assign name value).Unique := by
  intro phrase' rest rest' same ends ends'
  cases phrase' with
  | assign name' value' =>
    simp only [tokens, List.cons_append, List.append_assoc, List.cons.injEq, Token.ident.injEq,
      true_and] at same
    obtain ⟨rfl, same⟩ := same
    obtain ⟨rfl, ending⟩ := unique_terminated unique same
    exact ⟨rfl, ending⟩
  | eval value' => exact absurd same.symm (eval_tokens_ne_assign value' name _ _)
  | _ => cases same

private theorem unique_eval {value : Phrase (.expr .comparison)} (unique : value.Unique) :
    (eval value).Unique := by
  intro phrase' rest rest' same ends ends'
  cases phrase' with
  | eval value' =>
    simp only [tokens, List.append_assoc] at same
    obtain ⟨rfl, ending⟩ := unique_terminated unique same
    exact ⟨rfl, ending⟩
  | assign name value' => exact absurd same (eval_tokens_ne_assign value name _ _)
  | _ => exact absurd same (eval_tokens_ne value rfl _ _)

/-- A statement does not begin with what ends the statements. -/
theorem statement_tokens_ne (first : Phrase .statement) {rest more : List Token}
    (ends : Ends .statements rest) : first.tokens ++ more ≠ rest := by
  have opened : Category.statement.opens (first.tokens ++ more).head? = true :=
    opens_append first.opens_tokens rfl (fun _ started => started) more
  cases rest with
  | nil =>
    intro same
    simp [same, opens, mayBeEmpty] at opened
  | cons token behind =>
    have closing : token = .curlyClose := by simpa [continues] using ends
    subst closing
    exact first.tokens_ne rfl rfl _ _

theorem ends_statements (phrase : Phrase .statements) {rest : List Token}
    (ends : Ends .statements rest) : Ends .statement (phrase.tokens ++ rest) := by
  have opened := phrase.opens_tokens
  intro token next
  cases parts : phrase.tokens with
  | nil =>
    have closing : token = .curlyClose := by
      simpa [continues] using ends token (by simpa [parts] using next)
    rw [closing]
    rfl
  | cons first more =>
    simp only [parts, List.cons_append, List.head?_cons, Option.mem_def, Option.some.injEq]
      at next opened
    subst next
    cases first <;> first | rfl | cases opened

private theorem unique_noStatements : noStatements.Unique := by
  intro phrase' rest rest' same ends ends'
  cases phrase' with
  | noStatements => exact ⟨rfl, same⟩
  | statements first more =>
    simp only [tokens, List.append_assoc, List.nil_append] at same
    exact absurd same.symm (statement_tokens_ne first ends)

private theorem unique_statements {first : Phrase .statement} {more : Phrase .statements}
    (unique : first.Unique) (unique' : more.Unique) : (statements first more).Unique := by
  intro phrase' rest rest' same ends ends'
  cases phrase' with
  | noStatements =>
    simp only [tokens, List.append_assoc, List.nil_append] at same
    exact absurd same (statement_tokens_ne first ends')
  | statements first' more' =>
    simp only [tokens, List.append_assoc] at same
    obtain ⟨rfl, behind⟩ := unique first' _ _ same (more.ends_statements ends)
      (more'.ends_statements ends')
    obtain ⟨rfl, ending⟩ := unique' more' _ _ behind ends ends'
    exact ⟨rfl, ending⟩

/-- The grammar is unambiguous. -/
theorem unique (phrase : Phrase category) : phrase.Unique := by
  induction phrase with
  | int value | float value =>
    intro phrase' rest rest' same _ _
    cases phrase' <;> simp_all [tokens]
  | call callee arguments ih => exact unique_call callee ih
  | var name => exact unique_var name
  | group inner ih => exact unique_group ih
  | unary signs inner ih => exact unique_unary signs ih
  | chain first links ih ih' => exact unique_chain ih ih'
  | noLinks => exact unique_noLinks
  | link op ranked operand more ih ih' => exact unique_link ranked ih ih'
  | sum inner ih => exact unique_sum ih
  | compare left op right ih ih' => exact unique_compare op ih ih'
  | argument value ih =>
    intro phrase' rest rest' same ends ends'
    cases phrase' with
    | argument value' =>
      obtain ⟨rfl, ending⟩ := ih value' _ _ same ends ends'
      exact ⟨rfl, ending⟩
  | parameter name kind => exact unique_parameter name kind
  | noEntries => exact unique_noEntries
  | entries first others ih ih' => exact unique_entries ih ih'
  | noOthers => exact unique_noOthers
  | trailing => exact unique_trailing
  | other first others ih ih' => exact unique_other ih ih'
  | declare name kind => exact unique_declare name kind
  | define name kind value ih => exact unique_define name kind ih
  | function name parameters result body ih ih' => exact unique_function name result ih ih'
  | branch condition ifTrue ih ih' => exact unique_branch ih ih'
  | branchElse condition ifTrue ifFalse ih ih' ih'' => exact unique_branchElse ih ih' ih''
  | loop condition body ih ih' => exact unique_loop ih ih'
  | print value ih => exact unique_print ih
  | ret value ih => exact unique_ret ih
  | assign name value ih => exact unique_assign name ih
  | eval value ih => exact unique_eval ih
  | noStatements => exact unique_noStatements
  | statements first more ih ih' => exact unique_statements ih ih'

end Phrase

end Wabbit.Source
