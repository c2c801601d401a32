import Wabbit.Proofs.Grammar.Bare
import Wabbit.Proofs.Grammar.Unambiguous
import Wabbit.Proofs.Parsing.Reads
import Wabbit.Source.Grammar

/-!
Every derivation is read, and gives its tree. The rules of the grammar are tried in order, so each
production has to be rejected by the rules before its own, for which a look at its first tokens is
enough.
-/

namespace Wabbit.Source

open Parsing Grammar

/-- The rule for the operators of a rank. -/
def Rank.sign : Rank → Rule Operator
  | product => .either (operator .star (.arithmetic .mul)) (operator .slash (.arithmetic .div))
  | sum => .either (operator .plus (.arithmetic .add)) (operator .minus (.arithmetic .sub))

/-- The rule for the expressions of a level, given that for all expressions. -/
def Level.rule (inner : Rule Expr) : Level → Rule Expr
  | atom => Grammar.atom inner
  | unary => Grammar.unary inner
  | chain .product => Grammar.product inner
  | chain .sum => Grammar.sum inner
  | comparison => Grammar.comparison inner

private theorem Level.rule_chain (inner : Rule Expr) (rank : Rank) :
    (chain rank).rule inner = Grammar.chain rank.sign (rank.operand.rule inner) := by
  cases rank <;> rfl

/-- An operator and its right operand with empty spans. -/
def bareLink (link : Operator × Expr) : Operator × Expr := (link.1, link.2.bare)

namespace Entry

/-- The rule for what is listed. -/
def rule (depth : Nat) : (listed : Entry) → Rule listed.Tree
  | argument => expression (depth + 1)
  | parameter => .both name kind

/-- What is listed with empty spans. -/
def bare : (listed : Entry) → listed.Tree → listed.Tree
  | argument, value => Expr.bare value
  | parameter, pair => pair

theorem map_bare_parameter (pairs : List (String × Kind)) : pairs.map parameter.bare = pairs :=
  List.map_id pairs

end Entry

/-- Wherever `items` lie ahead, the rule of the category reads them up to `rest` as the tree. -/
abbrev Category.Accepts : (category : Category) → Nat → List Token → category.Tree → List Token → Prop
  | expr level, depth, items, tree, rest =>
    Reads (level.rule (expression depth)) items (fun e => e.bare = tree) rest
  | links rank, depth, items, tree, rest =>
    ReadsMany (.both rank.sign (rank.operand.rule (expression depth))) items
      (fun links => links.map bareLink = tree) rest
  | entry listed, depth, items, tree, rest =>
    Reads (listed.rule depth) items (fun e => listed.bare e = tree) rest
  | list listed, depth, items, tree, rest =>
    Reads (.separated (.just .comma) (listed.rule depth)) items
      (fun es => es.map listed.bare = tree) rest
  | others listed, depth, items, tree, rest =>
    ReadsOthers (.just .comma) (listed.rule depth) items (fun es => es.map listed.bare = tree) rest
  | statement, depth, items, tree, rest => ∀ outer, depth ≤ outer →
    Reads (Grammar.statement (expression (outer + 1)) (depth + 1)) items (fun s => s.bare = tree)
      rest
  | statements, depth, items, tree, rest => ∀ outer, depth ≤ outer →
    ReadsMany (Grammar.statement (expression (outer + 1)) (depth + 1)) items
      (fun ss => Stmt.bareAll ss = tree) rest

section Tokens

variable {items rest : List Token}

theorem reads_name (x : String) : Reads name (.ident x :: rest) (· = x) rest := .item rfl rfl

theorem rejects_name (other : ∀ x, items.head? ≠ some (.ident x)) : Rejects name items := by
  apply Rejects.item
  intro token next
  cases token with
  | ident x => exact absurd next (other x)
  | _ => rfl

theorem reads_ident (x : String) :
    Reads ident (.ident x :: rest) (fun i => i.bare = ⟨x, {}⟩) rest := by
  apply Reads.spanned
  apply (reads_name x).map
  rintro a rfl span
  rfl

private theorem rejects_ident (other : ∀ x, items.head? ≠ some (.ident x)) : Rejects ident items :=
  ((rejects_name other).map _).spanned

theorem reads_kind (k : Kind) : Reads kind (k.token :: rest) (· = k) rest := by
  apply ReadsChoice.reads
  cases k with
  | integer => exact .here ((Reads.just _ _).map fun _ _ => rfl)
  | float =>
    have other : Rejects (Parser.just Kind.integer.token) (Kind.float.token :: rest) :=
      .just (by simp [Kind.token])
    exact .next (other.map _) (.here ((Reads.just _ _).map fun _ _ => rfl))

private theorem rejects_kind (other : ∀ k : Kind, items.head? ≠ some k.token) : Rejects kind items := by
  apply Rejects.choice
  simp only [List.forall_mem_cons, List.not_mem_nil, false_implies, implies_true, and_true]
  exact ⟨(Rejects.just (other .integer)).map _, (Rejects.just (other .float)).map _⟩

theorem reads_optional_kind (k : Option Kind) {token : Token}
    (plain : ∀ k : Kind, token ≠ k.token) :
    Reads (.optional kind) (kindTokens k ++ token :: rest) (· = k) (token :: rest) := by
  cases k with
  | none => exact Reads.optional_none (rejects_kind fun k same => plain k (Option.some.inj same))
  | some k =>
    apply (reads_kind k).optional.imp
    rintro a ⟨k', rfl, rfl⟩
    rfl

theorem reads_operator (token : Token) (op : Operator) :
    Reads (operator token op) (token :: rest) (· = op) rest :=
  (Reads.just token rest).map fun _ _ => rfl

theorem rejects_operator {token : Token} (op : Operator) (other : items.head? ≠ some token) :
    Rejects (operator token op) items :=
  (Rejects.just other).map _

private theorem reads_sign {rank : Rank} {op : Arithmetic} (ranked : Rank.of op = rank) :
    Reads rank.sign (op.token :: rest) (· = .arithmetic op) rest := by
  subst ranked
  cases op with
  | add | mul => exact (reads_operator _ _).either_left _
  | sub | div => exact .either_right (rejects_operator _ nofun) (reads_operator _ _)

private theorem rejects_sign {rank : Rank} (ends : Category.Ends (.links rank) items) :
    Rejects rank.sign items := by
  have other (token : Token) (sign : Category.links? rank token = true) :
      items.head? ≠ some token := by
    intro next
    have ended := ends token next
    cases rank <;> simp_all [Category.continues]
  cases rank with
  | product =>
    exact (rejects_operator _ (other .star rfl)).either (rejects_operator _ (other .slash rfl))
  | sum =>
    exact (rejects_operator _ (other .plus rfl)).either (rejects_operator _ (other .minus rfl))

private theorem reads_comparator (op : Comparison) :
    Reads comparator (op.token :: rest) (· = .compare op) rest := by
  apply ReadsChoice.reads
  cases op <;>
    repeat first
      | exact .here (reads_operator _ _)
      | refine .next (rejects_operator _ nofun) ?_

private theorem rejects_comparator (ends : Category.Ends (.expr .comparison) items) :
    Rejects comparator items := by
  have other (token : Token) (sign : Category.compares token = true) : items.head? ≠ some token := by
    intro next
    have ended := ends token next
    simp_all [Category.continues]
  apply Rejects.choice
  simp only [List.forall_mem_cons, List.not_mem_nil, false_implies, implies_true, and_true]
  exact ⟨rejects_operator _ (other _ rfl), rejects_operator _ (other _ rfl),
    rejects_operator _ (other _ rfl), rejects_operator _ (other _ rfl),
    rejects_operator _ (other _ rfl), rejects_operator _ (other _ rfl)⟩

end Tokens

section Rejected

variable {items : List Token}

theorem rejects_headed {α : Type} {keyword : Token} (p : Rule α)
    (other : items.head? ≠ some keyword) : Rejects (headed keyword p) items :=
  (Rejects.just other).skipLeft p

theorem rejects_parenthesized {α : Type} (p : Rule α) (other : items.head? ≠ some .parenOpen) :
    Rejects (parenthesized p) items :=
  (Rejects.just other).between _ p

theorem rejects_value (int : ∀ v, items.head? ≠ some (.int v))
    (float : ∀ v, items.head? ≠ some (.float v)) : Rejects value items := by
  apply Rejects.item
  intro token next
  cases token with
  | int v => exact absurd next (int v)
  | float v => exact absurd next (float v)
  | _ => rfl

/-- No expression is read where none can begin. -/
theorem rejects_level (level : Level) (inner : Rule Expr)
    (other : ∀ token ∈ items.head?, (Category.expr .comparison).starts token = false) :
    Rejects (level.rule inner) items := by
  have absent (token : Token) (starts : (Category.expr .comparison).starts token = true) :
      items.head? ≠ some token := by
    intro next
    rw [other token next] at starts
    cases starts
  have name_rejects : Rejects name items := rejects_name fun x => absent _ rfl
  have atom_rejects : Rejects (Grammar.atom inner) items := by
    apply Rejects.either
    · apply Rejects.spanned
      apply Rejects.either
      · exact (rejects_value (fun v => absent _ rfl) fun v => absent _ rfl).either
          (.seq_left _ _ name_rejects)
      · exact name_rejects.map _
    · exact rejects_parenthesized _ (absent _ rfl)
  have unary_rejects : Rejects (Grammar.unary inner) items := by
    have sign_rejects : Rejects (Parser.spanned ((Parser.just Token.minus).map fun _ span => span))
        items := ((Rejects.just (absent _ rfl)).map _).spanned
    unfold Grammar.unary
    exact .seq_right _ (ReadsMany.stop sign_rejects rfl).reads atom_rejects
  have product_rejects : Rejects (Grammar.product inner) items := by
    unfold Grammar.product Grammar.chain
    exact unary_rejects.seq_left _ _
  have sum_rejects : Rejects (Grammar.sum inner) items := by
    unfold Grammar.sum Grammar.chain
    exact product_rejects.seq_left _ _
  match level with
  | .atom => exact atom_rejects
  | .unary => exact unary_rejects
  | .chain .product => exact product_rejects
  | .chain .sum => exact sum_rejects
  | .comparison =>
    unfold Level.rule Grammar.comparison
    exact sum_rejects.seq_left _ _

/-- No entry is read where the list ends. -/
theorem rejects_entry {listed : Entry} (depth : Nat) (ends : Category.Ends (.list listed) items) :
    Rejects (listed.rule depth) items := by
  have closing (token : Token) (next : token ∈ items.head?) : token = .parenClose := by
    simpa [Category.continues] using ends token next
  cases listed with
  | argument =>
    apply rejects_level .comparison
    intro token next
    rw [closing token next]
    rfl
  | parameter =>
    apply Rejects.seq_left
    apply rejects_name
    intro x next
    cases closing _ next

end Rejected

namespace Phrase

open Category

/-- The rule of the category reads the tokens of the phrase as its tree, whatever stands behind
them, as long as it does not continue the phrase. -/
def Complete {category : Category} (phrase : Phrase category) : Prop :=
  ∀ (depth : Nat) (rest : List Token), phrase.tokens.length ≤ depth → category.Ends rest →
    category.Accepts depth (phrase.tokens ++ rest) phrase.tree rest

theorem Complete.reads {level : Level} {phrase : Phrase (.expr level)} (complete : phrase.Complete)
    (depth : Nat) (rest : List Token) (enough : phrase.tokens.length ≤ depth)
    (ends : Ends (.expr level) rest) :
    Reads (level.rule (expression depth)) (phrase.tokens ++ rest) (fun e => e.bare = phrase.tree)
      rest :=
  complete depth rest enough ends

private theorem complete_int (v : Int64) : (int v).Complete := by
  intro depth rest enough ends
  unfold Accepts Level.rule Grammar.atom
  apply Reads.either_left
  apply Reads.spanned
  apply Reads.either_left
  apply Reads.either_left
  exact .item rfl fun _ => rfl

private theorem complete_float (v : Binary64) : (float v).Complete := by
  intro depth rest enough ends
  unfold Accepts Level.rule Grammar.atom
  apply Reads.either_left
  apply Reads.spanned
  apply Reads.either_left
  apply Reads.either_left
  exact .item rfl fun _ => rfl

private theorem complete_call (callee : String) {arguments : Phrase (.list .argument)}
    (complete : arguments.Complete) : (call callee arguments).Complete := by
  intro depth rest enough ends
  obtain _ | depth := depth
  · simp at enough
  simp only [tokens, List.length_cons, List.length_append] at enough
  have reads : Reads (.separated (.just .comma) (expression (depth + 1)))
      (arguments.tokens ++ .parenClose :: rest) (fun es => es.map Expr.bare = arguments.tree)
      (.parenClose :: rest) := complete depth (.parenClose :: rest) (by omega) (ends_cons.mpr rfl)
  simp only [tokens, List.cons_append, List.append_assoc]
  unfold Accepts Level.rule Grammar.atom
  apply Reads.either_left
  apply Reads.spanned
  apply Reads.either_left
  apply Reads.either_right (rejects_value (by simp) (by simp))
  apply (reads_name callee).seq ((Reads.just _ _).between reads (Reads.just _ _))
  rintro a es rfl same span
  rw [Expr.bare, Expr.bareAll_eq_map, same]
  rfl

private theorem complete_var (x : String) : (var x).Complete := by
  intro depth rest enough ends
  have noCall : rest.head? ≠ some .parenOpen := fun next => nomatch ends _ next
  unfold Accepts Level.rule Grammar.atom
  apply Reads.either_left
  apply Reads.spanned
  apply Reads.either_right
  · apply Rejects.either (rejects_value (by simp) (by simp))
    unfold Grammar.call
    exact .seq_right _ (reads_name x) (rejects_parenthesized _ noCall)
  · apply (reads_name x).map
    rintro a rfl span
    rfl

private theorem complete_group {inner : Phrase (.expr .comparison)} (complete : inner.Complete) :
    (group inner).Complete := by
  intro depth rest enough ends
  obtain _ | depth := depth
  · simp at enough
  simp only [tokens, List.length_cons, List.length_append] at enough
  have reads : Reads (expression (depth + 1)) (inner.tokens ++ .parenClose :: rest)
      (fun e => e.bare = inner.tree) (.parenClose :: rest) :=
    complete depth (.parenClose :: rest) (by omega) (ends_cons.mpr rfl)
  simp only [tokens, List.cons_append, List.append_assoc, List.nil_append]
  have noName : Rejects name (.parenOpen :: (inner.tokens ++ .parenClose :: rest)) :=
    rejects_name nofun
  unfold Accepts Level.rule Grammar.atom
  apply Reads.either_right
  · apply Rejects.spanned
    unfold Grammar.call
    exact ((rejects_value (by simp) (by simp)).either (noName.seq_left _ _)).either (noName.map _)
  · exact (Reads.just _ _).between reads (Reads.just _ _)

/-- A run of minus signs is read up to its end. -/
theorem reads_signs (signs : Nat) {rest : List Token} (ends : rest.head? ≠ some .minus) :
    ReadsMany (Parser.spanned ((Parser.just Token.minus).map fun _ span => span))
      (List.replicate signs .minus ++ rest) (fun spans => spans.length = signs) rest := by
  induction signs with
  | zero => exact .stop ((Rejects.just ends).map _).spanned rfl
  | succ signs ih =>
    refine .more (Reads.spanned ((Reads.just _ _).map fun _ _ _ => trivial)) ?_ ih ?_
    · simp
    · rintro span spans - rfl
      rfl

theorem bare_signs (spans : List Span) (e : Expr) :
    (spans.foldr (fun sign e => Expr.neg e (sign.union e.span)) e).bare =
      Nat.repeat (Expr.neg · {}) spans.length e.bare := by
  induction spans with
  | nil => rfl
  | cons span spans ih => rw [List.foldr_cons, Expr.bare, ih, List.length_cons, Nat.repeat]

private theorem complete_unary (signs : Nat) {inner : Phrase (.expr .atom)} (complete : inner.Complete) :
    (unary signs inner).Complete := by
  intro depth rest enough ends
  simp only [tokens, List.length_append, List.length_replicate] at enough
  simp only [tokens, List.append_assoc]
  have noSign : (inner.tokens ++ rest).head? ≠ some .minus := by
    intro next
    obtain ⟨more, parts⟩ := List.head?_eq_some_iff.mp next
    exact inner.tokens_ne rfl rfl _ _ parts
  have reads : Reads (Grammar.atom (expression depth)) (inner.tokens ++ rest)
      (fun e => e.bare = inner.tree) rest := complete depth rest (by omega) ends
  unfold Accepts Level.rule Grammar.unary
  apply (reads_signs signs noSign).reads.seq reads
  rintro spans e rfl bare
  rw [bare_signs, bare]
  rfl

theorem bare_foldl_join (links : List (Operator × Expr)) (e : Expr) :
    (links.foldl join e).bare =
      (links.map bareLink).foldl (fun left link => .binary link.1 left link.2 {}) e.bare := by
  induction links generalizing e with
  | nil => rfl
  | cons link links ih => rw [List.foldl_cons, ih]; rfl

private theorem complete_chain {rank : Rank} {first : Phrase (.expr rank.operand)}
    {links : Phrase (.links rank)} (complete : first.Complete) (complete' : links.Complete) :
    (chain first links).Complete := by
  intro depth rest enough ends
  simp only [tokens, List.length_append] at enough
  have ended : Ends (.links rank) rest := by cases rank <;> exact ends
  have reads := complete.reads depth (links.tokens ++ rest) (by omega) (links.ends_links ended)
  have reads' : ReadsMany (.both rank.sign (rank.operand.rule (expression depth)))
      (links.tokens ++ rest) (fun es => es.map bareLink = links.tree) rest :=
    complete' depth rest (by omega) ended
  simp only [tokens, List.append_assoc]
  change Reads ((Level.chain rank).rule (expression depth)) _ _ _
  rw [Level.rule_chain, Grammar.chain]
  apply reads.seq reads'.reads
  intro e es bare bare'
  rw [bare_foldl_join, bare, bare']
  rfl

private theorem complete_noLinks {rank : Rank} : (@noLinks rank).Complete := by
  intro depth rest enough ends
  exact ReadsMany.stop ((rejects_sign ends).both _) rfl

private theorem complete_link {rank : Rank} {op : Arithmetic} (ranked : Rank.of op = rank)
    {operand : Phrase (.expr rank.operand)} {more : Phrase (.links rank)}
    (complete : operand.Complete) (complete' : more.Complete) :
    (link op ranked operand more).Complete := by
  intro depth rest enough ends
  simp only [tokens, List.length_cons, List.length_append] at enough
  have reads := complete.reads depth (more.tokens ++ rest) (by omega) (more.ends_links ends)
  simp only [tokens, List.cons_append, List.append_assoc]
  refine ReadsMany.more ((reads_sign ranked).both reads) ?_ (complete' depth rest (by omega) ends) ?_
  · simp only [List.length_cons, List.length_append]
    omega
  · rintro ⟨op', e⟩ es ⟨same, bare⟩ bare'
    simp only at same bare
    rw [List.map_cons, bare', bareLink, same, bare]
    rfl

private theorem complete_sum {inner : Phrase (.expr (.chain .sum))} (complete : inner.Complete) :
    (sum inner).Complete := by
  intro depth rest enough ends
  have reads : Reads (Grammar.sum (expression depth)) (inner.tokens ++ rest)
      (fun e => e.bare = inner.tree) rest := complete.reads depth rest enough (ends_sum ends)
  unfold Accepts Level.rule Grammar.comparison
  apply reads.seq (Reads.optional_none ((rejects_comparator ends).both _))
  rintro e _ bare rfl
  exact bare

private theorem complete_compare {left right : Phrase (.expr (.chain .sum))} (op : Comparison)
    (complete : left.Complete) (complete' : right.Complete) : (compare left op right).Complete := by
  intro depth rest enough ends
  simp only [tokens, List.length_cons, List.length_append] at enough
  have reads : Reads (Grammar.sum (expression depth))
      (left.tokens ++ op.token :: (right.tokens ++ rest)) (fun e => e.bare = left.tree) (op.token :: (right.tokens ++ rest)) :=
    complete.reads depth _ (by omega) (ends_cons.mpr (continues_comparison op).2)
  have reads' : Reads (Grammar.sum (expression depth)) (right.tokens ++ rest)
      (fun e => e.bare = right.tree) rest := complete'.reads depth rest (by omega) (ends_sum ends)
  simp only [tokens, List.append_assoc, List.cons_append]
  unfold Accepts Level.rule Grammar.comparison
  apply reads.seq ((reads_comparator op).both reads').optional
  rintro e _ bare ⟨⟨op', e'⟩, rfl, same, bare'⟩
  simp only at same bare'
  simp only [Option.elim, join, Expr.bare, same, bare, bare']
  rfl

private theorem complete_parameter (x : String) (k : Kind) : (parameter x k).Complete := by
  intro depth rest enough ends
  apply ((reads_name x).both (reads_kind k)).imp
  rintro ⟨x', k'⟩ ⟨rfl, rfl⟩
  rfl

private theorem complete_noEntries {listed : Entry} : (@noEntries listed).Complete := by
  intro depth rest enough ends
  exact Reads.separated_none (rejects_entry depth ends) rfl

private theorem complete_entries {listed : Entry} {first : Phrase (.entry listed)}
    {others : Phrase (.others listed)} (complete : first.Complete) (complete' : others.Complete) :
    (entries first others).Complete := by
  intro depth rest enough ends
  simp only [tokens, List.length_append] at enough
  have reads := complete depth (others.tokens ++ rest) (by omega) (others.ends_others ends)
  have reads' := complete' depth rest (by omega) ends
  simp only [tokens, List.append_assoc]
  apply Reads.separated reads reads'
  intro e es bare bare'
  rw [List.map_cons, bare, bare']
  rfl

private theorem complete_noOthers {listed : Entry} : (@noOthers listed).Complete := by
  intro depth rest enough ends
  have noComma : rest.head? ≠ some .comma := fun next => nomatch ends _ next
  exact .stop (.just noComma) rfl

private theorem complete_trailing {listed : Entry} : (@trailing listed).Complete := by
  intro depth rest enough ends
  exact .trailing (.just _ _) (rejects_entry depth ends) rfl

private theorem complete_other {listed : Entry} {first : Phrase (.entry listed)}
    {others : Phrase (.others listed)} (complete : first.Complete) (complete' : others.Complete) :
    (other first others).Complete := by
  intro depth rest enough ends
  simp only [tokens, List.length_cons, List.length_append] at enough
  have reads := complete depth (others.tokens ++ rest) (by omega) (others.ends_others ends)
  have reads' := complete' depth rest (by omega) ends
  simp only [tokens, List.cons_append, List.append_assoc]
  refine .more (.just _ _) reads ?_ reads' ?_
  · simp only [List.length_cons, List.length_append]
    omega
  · intro e es bare bare'
    rw [List.map_cons, bare, bare']
    rfl

/-- The alternatives of a statement, in the order in which they are tried. -/
def alternatives (expression : Rule Expr) (inner : Rule Stmt) : List (Rule (Span → Stmt)) :=
  [declaration expression, Grammar.function inner, Grammar.ifElse expression inner,
    Grammar.loop expression inner, (terminated (headed .kwPrint expression)).map Stmt.print,
    (terminated (headed .kwReturn expression)).map Stmt.ret, Grammar.assign expression,
    (terminated expression).map Stmt.eval]

theorem statement_succ (expression : Rule Expr) (depth : Nat) :
    Grammar.statement expression (depth + 1) =
      (Parser.choice (alternatives expression (Grammar.statement expression depth))).spanned := rfl

section Alternatives

variable {items : List Token}

theorem rejects_declaration (e : Rule Expr) (other : items.head? ≠ some .kwVar) :
    Rejects (declaration e) items :=
  (((((rejects_headed _ other).both _).both _).skipRight _).refine _)

theorem rejects_function (inner : Rule Stmt) (other : items.head? ≠ some .kwFunc) :
    Rejects (Grammar.function inner) items :=
  (((rejects_headed _ other).both _).both _).seq_left _ _

theorem rejects_ifElse (e : Rule Expr) (inner : Rule Stmt) (other : items.head? ≠ some .kwIf) :
    Rejects (Grammar.ifElse e inner) items :=
  ((rejects_headed _ other).both _).seq_left _ _

theorem rejects_loop (e : Rule Expr) (inner : Rule Stmt) (other : items.head? ≠ some .kwWhile) :
    Rejects (Grammar.loop e inner) items :=
  (rejects_headed _ other).seq_left _ _

theorem rejects_terminated_headed {α β : Type} {keyword : Token} (p : Rule α) (f : α → β)
    (other : items.head? ≠ some keyword) : Rejects ((terminated (headed keyword p)).map f) items :=
  ((rejects_headed p other).skipRight _).map f

theorem rejects_assign (e : Rule Expr)
    (other : ∀ x more, items ≠ .ident x :: .assign :: more) : Rejects (Grammar.assign e) items := by
  have rejects : Rejects (Parser.skipRight ident (Parser.just .assign)) items := by
    by_cases named : ∃ x more, items = .ident x :: more
    · obtain ⟨x, more, rfl⟩ := named
      refine .seq_right _ (reads_ident x) (.just fun next => ?_)
      obtain ⟨behind, rfl⟩ := List.head?_eq_some_iff.mp next
      exact other x behind rfl
    · refine Rejects.skipRight _ (rejects_ident fun x next => named ?_)
      obtain ⟨more, parts⟩ := List.head?_eq_some_iff.mp next
      exact ⟨x, more, parts⟩
  exact (rejects.seq_left _ _).skipRight _

/-- No statement is read where the statements end. -/
theorem rejects_statement (depth outer : Nat) (ends : Ends .statements items) :
    Rejects (Grammar.statement (expression (outer + 1)) (depth + 1)) items := by
  have closing (token : Token) (next : items.head? = some token) : token = .curlyClose := by
    simpa [continues] using ends token next
  have other (token : Token) (open' : token ≠ .curlyClose) : items.head? ≠ some token :=
    fun next => open' (closing token next)
  rw [statement_succ]
  apply Rejects.spanned
  apply Rejects.choice
  simp only [alternatives, List.forall_mem_cons, List.not_mem_nil, false_implies, implies_true,
    and_true]
  refine ⟨rejects_declaration _ (other _ (by simp)), rejects_function _ (other _ (by simp)),
    rejects_ifElse _ _ (other _ (by simp)), rejects_loop _ _ (other _ (by simp)),
    rejects_terminated_headed _ _ (other _ (by simp)),
    rejects_terminated_headed _ _ (other _ (by simp)), rejects_assign _ ?_, ?_⟩
  · rintro x more rfl
    exact other (.ident x) (by simp) rfl
  · refine ((rejects_level .comparison _ fun token next => ?_).skipRight _).map _
    rw [closing token next]
    rfl

end Alternatives

section Statements

variable {value condition : Phrase (.expr .comparison)} {body ifTrue ifFalse : Phrase .statements}
  {depth outer : Nat}

theorem reads_block (complete : body.Complete) (enough : body.tokens.length ≤ depth)
    (deep : depth ≤ outer) (rest : List Token) :
    Reads (block (Grammar.statement (expression (outer + 1)) (depth + 1)))
      (braced body.tokens ++ rest) (fun ss => Stmt.bareAll ss = body.tree) rest := by
  have reads := complete depth (.curlyClose :: rest) enough (ends_cons.mpr rfl) outer deep
  simp only [braced, List.cons_append, List.append_assoc, List.nil_append]
  exact ((Reads.just _ _).between reads.reads (Reads.just _ _)).recovering

private theorem complete_declare (x : String) (k : Kind) : (declare x k).Complete := by
  intro depth rest enough ends outer deep
  have noValue : Rejects (headed .assign (expression (outer + 1))) (.semicolon :: rest) :=
    rejects_headed _ (by simp)
  have reads := ((((Reads.just Token.kwVar _).skipLeft (reads_ident x)).both
    (reads_optional_kind (some k) semicolon_ne_kind)).both (Reads.optional_none noValue)).skipRight
    (Reads.just Token.semicolon rest)
  rw [statement_succ]
  apply Reads.spanned
  apply ReadsChoice.reads
  refine .here (reads.refine ?_)
  rintro ⟨⟨ident, kind⟩, value⟩ ⟨⟨bare, rfl⟩, rfl⟩
  exact ⟨_, rfl, fun span => by simp [Stmt.bare, bare]⟩

private theorem complete_define (x : String) (k : Option Kind) (complete : value.Complete) :
    (define x k value).Complete := by
  intro depth rest enough ends outer deep
  simp only [tokens, List.length_cons, List.length_append] at enough
  have initial := complete.reads outer (.semicolon :: rest) (by omega) (ends_cons.mpr rfl)
  have reads := ((((Reads.just Token.kwVar _).skipLeft (reads_ident x)).both
    (reads_optional_kind k assign_ne_kind)).both
    ((Reads.just Token.assign _).skipLeft initial).optional).skipRight
    (Reads.just Token.semicolon rest)
  simp only [tokens, List.cons_append, List.append_assoc, List.nil_append]
  rw [statement_succ]
  apply Reads.spanned
  apply ReadsChoice.reads
  refine .here (reads.refine ?_)
  rintro ⟨⟨ident, kind⟩, value⟩ ⟨⟨bare, rfl⟩, e, rfl, bare'⟩
  exact ⟨_, rfl, fun span => by simp [Stmt.bare, bare, bare']⟩

private theorem complete_function (x : String) {parameters : Phrase (.list .parameter)} (k : Option Kind)
    (complete : parameters.Complete) (complete' : body.Complete) :
    (function x parameters k body).Complete := by
  intro depth rest enough ends outer deep
  obtain _ | depth := depth
  · simp at enough
  simp only [tokens, List.length_cons, List.length_append, braced] at enough
  have listed := complete depth (.parenClose :: (kindTokens k ++ (braced body.tokens ++ rest)))
    (by omega) (ends_cons.mpr rfl)
  have header := (((Reads.just Token.kwFunc _).skipLeft (reads_ident x)).both
    ((Reads.just Token.parenOpen _).between listed (Reads.just _ _))).both
    (reads_optional_kind k curlyOpen_ne_kind)
  have reads_body := reads_block complete' (by omega) (Nat.le_of_succ_le deep) rest
  simp only [tokens, List.cons_append, List.append_assoc]
  rw [statement_succ]
  apply Reads.spanned
  apply ReadsChoice.reads
  refine .next (rejects_declaration _ (by simp)) (.here (header.seq reads_body ?_))
  rintro ⟨⟨ident, es⟩, k⟩ ss ⟨⟨bare, same⟩, rfl⟩ bare' span
  rw [Entry.map_bare_parameter] at same
  simp_all [Stmt.bare]

private theorem complete_branch (complete : condition.Complete) (complete' : ifTrue.Complete) :
    (branch condition ifTrue).Complete := by
  intro depth rest enough ends outer deep
  obtain _ | depth := depth
  · simp at enough
  simp only [tokens, List.length_cons, List.length_append, braced] at enough
  have tested := complete.reads outer (braced ifTrue.tokens ++ rest) (by omega) (ends_cons.mpr rfl)
  have reads := ((Reads.just Token.kwIf _).skipLeft tested).both
    (reads_block complete' (by omega) (Nat.le_of_succ_le deep) rest)
  have noElse : Rejects (headed .kwElse (block (Grammar.statement (expression (outer + 1))
      (depth + 1)))) rest := rejects_headed _ fun next => absurd (ends _ next) (by decide)
  simp only [tokens, List.cons_append, List.append_assoc]
  rw [statement_succ]
  apply Reads.spanned
  apply ReadsChoice.reads
  refine .next (rejects_declaration _ (by simp)) (.next (rejects_function _ (by simp)) (.here ?_))
  apply reads.seq (Reads.optional_none noElse)
  rintro ⟨e, ss⟩ _ ⟨bare, bare'⟩ rfl span
  simp_all [Stmt.bare, Stmt.bareAll]

private theorem complete_branchElse (complete : condition.Complete) (complete' : ifTrue.Complete)
    (complete'' : ifFalse.Complete) : (branchElse condition ifTrue ifFalse).Complete := by
  intro depth rest enough ends outer deep
  obtain _ | depth := depth
  · simp at enough
  simp only [tokens, List.length_cons, List.length_append, braced] at enough
  have tested := complete.reads outer
    (braced ifTrue.tokens ++ .kwElse :: (braced ifFalse.tokens ++ rest)) (by omega)
    (ends_cons.mpr rfl)
  have reads := ((Reads.just Token.kwIf _).skipLeft tested).both
    (reads_block complete' (by omega) (Nat.le_of_succ_le deep) _)
  have reads_else := ((Reads.just Token.kwElse _).skipLeft
    (reads_block complete'' (by omega) (Nat.le_of_succ_le deep) rest)).optional
  simp only [tokens, List.cons_append, List.append_assoc]
  rw [statement_succ]
  apply Reads.spanned
  apply ReadsChoice.reads
  refine .next (rejects_declaration _ (by simp)) (.next (rejects_function _ (by simp)) (.here ?_))
  apply reads.seq reads_else
  rintro ⟨e, ss⟩ _ ⟨bare, bare'⟩ ⟨ss', rfl, bare''⟩ span
  simp_all [Stmt.bare]

private theorem complete_loop (complete : condition.Complete) (complete' : body.Complete) :
    (loop condition body).Complete := by
  intro depth rest enough ends outer deep
  obtain _ | depth := depth
  · simp at enough
  simp only [tokens, List.length_cons, List.length_append, braced] at enough
  have tested := complete.reads outer (braced body.tokens ++ rest) (by omega) (ends_cons.mpr rfl)
  simp only [tokens, List.cons_append, List.append_assoc]
  rw [statement_succ]
  apply Reads.spanned
  apply ReadsChoice.reads
  refine .next (rejects_declaration _ (by simp)) (.next (rejects_function _ (by simp))
    (.next (rejects_ifElse _ _ (by simp)) (.here ?_)))
  apply ((Reads.just Token.kwWhile _).skipLeft tested).seq
    (reads_block complete' (by omega) (Nat.le_of_succ_le deep) rest)
  intro e ss bare bare' span
  simp_all [Stmt.bare]

/-- What begins with none of the keywords of compound statements is left to the last
alternatives. -/
theorem reads_simple {items rest : List Token} {holds : Stmt → Prop}
    (compound : ∀ keyword ∈ [Token.kwVar, .kwFunc, .kwIf, .kwWhile], items.head? ≠ some keyword)
    (reads : ReadsChoice [(terminated (headed .kwPrint (expression (outer + 1)))).map Stmt.print,
      (terminated (headed .kwReturn (expression (outer + 1)))).map Stmt.ret,
      Grammar.assign (expression (outer + 1)), (terminated (expression (outer + 1))).map Stmt.eval]
      items (fun make => ∀ span, holds (make span)) rest) :
    Reads (Grammar.statement (expression (outer + 1)) (depth + 1)) items holds rest := by
  rw [statement_succ]
  apply Reads.spanned
  apply ReadsChoice.reads
  exact .next (rejects_declaration _ (compound _ (by simp)))
    (.next (rejects_function _ (compound _ (by simp)))
      (.next (rejects_ifElse _ _ (compound _ (by simp)))
        (.next (rejects_loop _ _ (compound _ (by simp))) reads)))

private theorem complete_print (complete : value.Complete) : (print value).Complete := by
  intro depth rest enough ends outer deep
  simp only [tokens, List.length_cons, List.length_append] at enough
  have reads := complete.reads outer (.semicolon :: rest) (by omega) (ends_cons.mpr rfl)
  simp only [tokens, List.cons_append, List.append_assoc, List.nil_append]
  refine reads_simple (by simp) (.here (Reads.map
    (((Reads.just Token.kwPrint _).skipLeft reads).skipRight (Reads.just _ _)) ?_))
  intro e bare span
  simp [Stmt.bare, bare]

private theorem complete_ret (complete : value.Complete) : (ret value).Complete := by
  intro depth rest enough ends outer deep
  simp only [tokens, List.length_cons, List.length_append] at enough
  have reads := complete.reads outer (.semicolon :: rest) (by omega) (ends_cons.mpr rfl)
  simp only [tokens, List.cons_append, List.append_assoc, List.nil_append]
  refine reads_simple (by simp) (.next (rejects_terminated_headed _ _ (by simp)) (.here (Reads.map
    (((Reads.just Token.kwReturn _).skipLeft reads).skipRight (Reads.just _ _)) ?_)))
  intro e bare span
  simp [Stmt.bare, bare]

private theorem complete_assign (x : String) (complete : value.Complete) :
    (assign x value).Complete := by
  intro depth rest enough ends outer deep
  simp only [tokens, List.length_cons, List.length_append] at enough
  have reads := complete.reads outer (.semicolon :: rest) (by omega) (ends_cons.mpr rfl)
  simp only [tokens, List.cons_append, List.append_assoc, List.nil_append]
  refine reads_simple (by simp) (.next (rejects_terminated_headed _ _ (by simp))
    (.next (rejects_terminated_headed _ _ (by simp)) (.here (Reads.skipRight
      (((reads_ident x).skipRight (Reads.just _ _)).seq reads ?_) (Reads.just _ _)))))
  intro ident e bare bare' span
  simp [Stmt.bare, bare, bare']

private theorem complete_eval (complete : value.Complete) : (eval value).Complete := by
  intro depth rest enough ends outer deep
  have other (keyword : Token) (starts : (expr .comparison).starts keyword = false) :
      ((eval value).tokens ++ rest).head? ≠ some keyword := by
    intro next
    obtain ⟨more, parts⟩ := List.head?_eq_some_iff.mp next
    exact eval_tokens_ne value starts _ _ parts
  have noAssign := rejects_assign (expression (outer + 1))
    (fun x more => eval_tokens_ne_assign value x rest more)
  refine reads_simple ?_ (.next (rejects_terminated_headed _ _ (other _ rfl))
    (.next (rejects_terminated_headed _ _ (other _ rfl)) (.next noAssign (.here ?_))))
  · simp only [List.forall_mem_cons]
    exact ⟨other _ rfl, other _ rfl, other _ rfl, other _ rfl, nofun⟩
  · simp only [tokens, List.length_append] at enough
    have reads := complete.reads outer (.semicolon :: rest) (by omega) (ends_cons.mpr rfl)
    simp only [tokens, List.append_assoc, List.cons_append, List.nil_append]
    apply Reads.map (reads.skipRight (Reads.just _ _))
    intro e bare span
    simp [Stmt.bare, bare]

private theorem complete_noStatements : noStatements.Complete := by
  intro depth rest enough ends outer deep
  exact .stop (rejects_statement depth outer ends) rfl

private theorem complete_statements {first : Phrase .statement} {more : Phrase .statements}
    (complete : first.Complete) (complete' : more.Complete) : (statements first more).Complete := by
  intro depth rest enough ends outer deep
  simp only [tokens, List.length_append] at enough
  have reads := complete depth (more.tokens ++ rest) (by omega) (more.ends_statements ends) outer deep
  have reads' := complete' depth rest (by omega) ends outer deep
  have nonempty : first.tokens ≠ [] := by
    intro none
    simpa [none, opens, mayBeEmpty] using first.opens_tokens
  simp only [tokens, List.append_assoc]
  refine .more reads ?_ reads' ?_
  · simp only [List.length_append]
    have := List.length_pos_iff.mpr nonempty
    omega
  · intro s ss bare bare'
    rw [Stmt.bareAll, bare, bare']
    rfl

end Statements

/-- Every derivation is read. -/
theorem complete {category : Category} (phrase : Phrase category) : phrase.Complete := by
  induction phrase with
  | int v => exact complete_int v
  | float v => exact complete_float v
  | call callee arguments ih => exact complete_call callee ih
  | var x => exact complete_var x
  | group inner ih => exact complete_group ih
  | unary signs inner ih => exact complete_unary signs ih
  | chain first links ih ih' => exact complete_chain ih ih'
  | noLinks => exact complete_noLinks
  | link op ranked operand more ih ih' => exact complete_link ranked ih ih'
  | sum inner ih => exact complete_sum ih
  | compare left op right ih ih' => exact complete_compare op ih ih'
  | argument value ih => exact fun depth rest enough ends => ih depth rest enough ends
  | parameter x k => exact complete_parameter x k
  | noEntries => exact complete_noEntries
  | entries first others ih ih' => exact complete_entries ih ih'
  | noOthers => exact complete_noOthers
  | trailing => exact complete_trailing
  | other first others ih ih' => exact complete_other ih ih'
  | declare x k => exact complete_declare x k
  | define x k value ih => exact complete_define x k ih
  | function x parameters k body ih ih' => exact complete_function x k ih ih'
  | branch condition ifTrue ih ih' => exact complete_branch ih ih'
  | branchElse condition ifTrue ifFalse ih ih' ih'' => exact complete_branchElse ih ih' ih''
  | loop condition body ih ih' => exact complete_loop ih ih'
  | print value ih => exact complete_print ih
  | ret value ih => exact complete_ret ih
  | assign x value ih => exact complete_assign x ih
  | eval value ih => exact complete_eval ih
  | noStatements => exact complete_noStatements
  | statements first more ih ih' => exact complete_statements ih ih'

end Phrase

end Wabbit.Source
