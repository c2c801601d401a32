import Wabbit.Proofs.Grammar.Complete
import Wabbit.Proofs.Grammar.Nodes

/-!
What the rules of the grammar take where they record no fault. The tokens are those of a derivation,
what is read is its tree, and the nodes of the tree fit into the tokens.
-/

namespace Wabbit.Source

open Parsing Grammar

/-- What a rule takes, told by the tokens with their places. -/
abbrev TakesRule {α : Type} (p : Rule α) (language : List (Token × Span) → α → Prop) : Prop :=
  Takes Cursor.Passes p fun word a _ => language word a

/-- The nodes of what is listed. -/
def Entry.nodes : (listed : Entry) → listed.Tree → List Node
  | argument, value => [.expression value]
  | parameter, _ => []

namespace Category

/-- The tree with empty spans. -/
def bare : (category : Category) → category.Tree → category.Tree
  | expr _, e => Expr.bare e
  | links _, pairs => List.map bareLink pairs
  | entry listed, value => listed.bare value
  | list listed, values => List.map listed.bare values
  | others listed, values => List.map listed.bare values
  | statement, s => Stmt.bare s
  | statements, ss => Stmt.bareAll ss

/-- The nodes at the top of a tree. -/
def nodes : (category : Category) → category.Tree → List Node
  | expr _, e => [.expression e]
  | links _, pairs => List.map (fun link => .expression link.2) pairs
  | entry listed, value => listed.nodes value
  | list listed, values => List.flatMap listed.nodes values
  | others listed, values => List.flatMap listed.nodes values
  | statement, s => [.statement s]
  | statements, ss => List.map .statement ss

/-- The category derives the tokens, and the value is the tree of the derivation. -/
def IsTree (category : Category) (word : List (Token × Span)) (value : category.Tree) : Prop :=
  ∃ phrase : Phrase category, phrase.tokens = word.map Prod.fst ∧ category.bare value = phrase.tree

/-- The value is the tree of the tokens, and its nodes fit into them. -/
structure Places (category : Category) (word : List (Token × Span)) (value : category.Tree) :
    Prop where
  derived : category.IsTree word value
  fits : Solid word → Fits word (category.nodes value)

/-- The tokens make up a node of the category once its span is known. -/
structure Makes (category : Category) (node : category.Tree → Node)
    (word : List (Token × Span)) (make : Span → category.Tree) : Prop where
  derived : ∃ phrase : Phrase category,
    phrase.tokens = word.map Prod.fst ∧ ∀ span, category.bare (make span) = phrase.tree
  spanned : ∀ span, (node (make span)).span = span
  fits : ∀ span, Solid word → Fits word (node (make span)).children

end Category

open Category

namespace TakesRule

variable {α β γ : Type} {p : Rule α} {q : Rule β} {language : List (Token × Span) → α → Prop}
  {language' : List (Token × Span) → β → Prop}

theorem seq {f : α → β → γ} {both : List (Token × Span) → γ → Prop} (first : TakesRule p language)
    (second : TakesRule q language')
    (joined : ∀ word a word' b, language word a → language' word' b → both (word ++ word') (f a b)) :
    TakesRule (Parser.seq f p q) both :=
  Takes.seq first Cursor.areWays second fun word a _ word' b _ found _ found' =>
    joined word a word' b found found'

theorem both (first : TakesRule p language) (second : TakesRule q language') :
    TakesRule (Parser.both p q) fun word pair => ∃ left right,
      word = left ++ right ∧ language left pair.1 ∧ language' right pair.2 :=
  first.seq second fun left _ right _ found found' => ⟨left, right, rfl, found, found'⟩

theorem just (token : Token) : TakesRule (Parser.just token) fun word _ =>
    ∃ span, word = [(token, span)] :=
  Takes.just Cursor.areWays token

theorem skipLeft_just (token : Token) (takes : TakesRule p language) :
    TakesRule (Parser.skipLeft (Parser.just token) p) fun word a => ∃ span rest,
      word = (token, span) :: rest ∧ language rest a := by
  refine (just token).seq takes ?_
  rintro _ _ rest a ⟨span, rfl⟩ found
  exact ⟨span, rest, rfl, found⟩

theorem skipRight_just (token : Token) (takes : TakesRule p language) :
    TakesRule (Parser.skipRight p (Parser.just token)) fun word a => ∃ front span,
      word = front ++ [(token, span)] ∧ language front a := by
  refine takes.seq (just token) ?_
  rintro front a _ _ found ⟨span, rfl⟩
  exact ⟨front, span, rfl, found⟩

theorem between_just (first last : Token) (takes : TakesRule p language) :
    TakesRule (Parser.between (Parser.just first) (Parser.just last) p) fun word a =>
      ∃ left inner right, word = (first, left) :: (inner ++ [(last, right)]) ∧
        language inner a := by
  refine Takes.imp (skipRight_just last (skipLeft_just first takes)) ?_
  rintro _ a _ ⟨_, right, rfl, left, inner, rfl, found⟩
  exact ⟨left, inner, right, rfl, found⟩

theorem many {words : List (Token × Span) → List α → Prop} (takes : TakesRule p language)
    (none : words [] [])
    (more : ∀ word a rest as, language word a → words rest as → words (word ++ rest) (a :: as)) :
    TakesRule (Parser.many p) words :=
  Takes.many Cursor.areWays takes
    (fun word a _ rest as _ found _ found' => more word a rest as found found') fun _ => none

end TakesRule

section Tokens

theorem takes_name : TakesRule name fun word x => ∃ span, word = [(.ident x, span)] := by
  apply Takes.item Cursor.areWays
  intro token span x place taken
  cases token with
  | ident y =>
    cases taken
    exact ⟨span, rfl⟩
  | _ => cases taken

/-- What stands between two tokens. -/
theorem isInfix_inner (first last : Token × Span) (word : List (Token × Span)) :
    word <:+: first :: (word ++ [last]) :=
  ⟨[first], [last], rfl⟩

/-- What stands behind a token. -/
theorem isInfix_behind (first : Token × Span) (word : List (Token × Span)) :
    word <:+: first :: word :=
  (List.suffix_cons first word).isInfix

theorem eq_of_covers_singleton {item : Token × Span} {span : Span} (covers : Covers span [item]) :
    span = item.2 := by
  obtain ⟨_, ⟨⟩, _, ⟨⟩, rfl⟩ := covers
  rfl

theorem takes_ident : TakesRule ident fun word i => word = [(.ident i.name, i.span)] := by
  have made : TakesRule (name.map Ident.mk) fun word make =>
      ∃ x span, make = Ident.mk x ∧ word = [(.ident x, span)] :=
    takes_name.map fun _ x _ ⟨span, same⟩ => ⟨x, span, rfl, same⟩
  refine Takes.spanned made ?_
  rintro cursor _ _ place passes ⟨x, span, rfl, rfl⟩
  rw [eq_of_covers_singleton (passes.since (by simp))]

theorem takes_kind : TakesRule kind fun word k => word.map Prod.fst = [k.token] := by
  have takes (token : Token) (k : Kind) (same : k.token = token) :
      TakesRule ((Parser.just token).map fun _ => k) fun word k => word.map Prod.fst = [k.token] := by
    refine (TakesRule.just token).map ?_
    rintro _ _ _ ⟨span, rfl⟩
    rw [same]
    rfl
  apply Takes.choice
  simp only [List.forall_mem_cons, List.not_mem_nil, false_implies, implies_true, and_true]
  exact ⟨takes _ _ rfl, takes _ _ rfl⟩

theorem takes_optional_kind :
    TakesRule (.optional kind) fun word k => word.map Prod.fst = kindTokens k :=
  Takes.optional Cursor.areWays takes_kind (fun _ _ _ same => same) fun _ => rfl

theorem takes_operator (token : Token) (op : Operator) : TakesRule (operator token op)
    fun word found => found = op ∧ word.map Prod.fst = [token] := by
  refine (TakesRule.just token).map ?_
  rintro _ _ _ ⟨span, rfl⟩
  exact ⟨rfl, rfl⟩

private theorem takes_sign (rank : Rank) : TakesRule rank.sign fun word found =>
    ∃ op, Rank.of op = rank ∧ found = .arithmetic op ∧ word.map Prod.fst = [op.token] := by
  cases rank with
  | product =>
    exact ((takes_operator _ _).imp fun _ _ _ same => ⟨.mul, rfl, same⟩).either
      ((takes_operator _ _).imp fun _ _ _ same => ⟨.div, rfl, same⟩)
  | sum =>
    exact ((takes_operator _ _).imp fun _ _ _ same => ⟨.add, rfl, same⟩).either
      ((takes_operator _ _).imp fun _ _ _ same => ⟨.sub, rfl, same⟩)

private theorem takes_comparator : TakesRule comparator fun word found =>
    ∃ op : Comparison, found = .compare op ∧ word.map Prod.fst = [op.token] := by
  have takes (op : Comparison) : TakesRule (operator op.token (.compare op)) fun word found =>
      ∃ op : Comparison, found = .compare op ∧ word.map Prod.fst = [op.token] :=
    (takes_operator _ _).imp fun _ _ _ same => ⟨op, same⟩
  apply Takes.choice
  simp only [List.forall_mem_cons, List.not_mem_nil, false_implies, implies_true, and_true]
  exact ⟨takes .less, takes .lessEq, takes .greater, takes .greaterEq, takes .equal, takes .notEqual⟩

end Tokens

section Expressions

variable {inner : Rule Expr}

/-- A rule that gives a node the span of its tokens. -/
theorem takes_spanned {category : Category} {node : category.Tree → Node}
    {p : Rule (Span → category.Tree)} (takes : TakesRule p (category.Makes node))
    (nonempty : category.mayBeEmpty = false) (single : ∀ value, category.nodes value = [node value])
    (stands : ∀ word value, category.IsTree word value → Covers (node value).span word →
      ∀ s, node value = .statement s → s.Stands word) :
    TakesRule p.spanned category.Places := by
  refine Takes.spanned takes ?_
  rintro cursor word make place passes ⟨⟨phrase, same, tree⟩, spanned, fits⟩
  -- A phrase of the category has a token, so the span goes from the first to the last one.
  have covers : Covers (place.since cursor) word := by
    refine passes.since ?_
    rintro rfl
    have opened := phrase.opens_tokens
    simp [same, opens, nonempty] at opened
  rw [← spanned (place.since cursor)] at covers
  have derived : category.IsTree word (make (place.since cursor)) := ⟨phrase, same, tree _⟩
  refine ⟨derived, fun solid => ?_⟩
  rw [single]
  exact .close solid covers (fits _ solid) (stands _ _ derived covers)

theorem takes_list {listed : Entry} {p : Rule listed.Tree}
    (takes : TakesRule p (entry listed).Places) :
    TakesRule (Parser.separated (Parser.just .comma) p) (list listed).Places := by
  have joined {word rest : List (Token × Span)} {a : listed.Tree} {as : List listed.Tree}
      (first : (entry listed).Places word a) (behind : (others listed).Places rest as)
      (solid : Solid (word ++ rest)) : Fits (word ++ rest) ((list listed).nodes (a :: as)) := by
    obtain ⟨front, back⟩ := solid.of_append
    exact (first.fits front).append solid (behind.fits back)
  have stop : (others listed).Places [] [] := ⟨⟨.noOthers, rfl, rfl⟩, fun _ => .nil⟩
  have none : (list listed).Places [] [] := ⟨⟨.noEntries, rfl, rfl⟩, fun _ => .nil⟩
  have trailing (sign : List (Token × Span)) (comma : ∃ span, sign = [(.comma, span)]) :
      (others listed).Places sign [] := by
    obtain ⟨span, rfl⟩ := comma
    exact ⟨⟨.trailing, rfl, rfl⟩, fun _ => .nil⟩
  have some (word : List (Token × Span)) (a : listed.Tree) (rest : List (Token × Span))
      (as : List listed.Tree) (first : (entry listed).Places word a)
      (behind : (others listed).Places rest as) : (list listed).Places (word ++ rest) (a :: as) := by
    obtain ⟨phrase, same, tree⟩ := first.derived
    obtain ⟨phrase', same', tree'⟩ := behind.derived
    refine ⟨⟨.entries phrase phrase', ?_, ?_⟩, joined first behind⟩
    · rw [List.map_append, ← same, ← same', Phrase.tokens]
    · rw [Phrase.tree, ← tree, ← tree']
      rfl
  have more (sign word : List (Token × Span)) (a : listed.Tree) (rest : List (Token × Span))
      (as : List listed.Tree) (comma : ∃ span, sign = [(.comma, span)])
      (first : (entry listed).Places word a) (behind : (others listed).Places rest as) :
      (others listed).Places (sign ++ (word ++ rest)) (a :: as) := by
    obtain ⟨span, rfl⟩ := comma
    obtain ⟨phrase, same, tree⟩ := first.derived
    obtain ⟨phrase', same', tree'⟩ := behind.derived
    refine ⟨⟨.other phrase phrase', ?_, ?_⟩, fun solid => ?_⟩
    · rw [List.map_append, List.map_append, ← same, ← same', Phrase.tokens]
      rfl
    · rw [Phrase.tree, ← tree, ← tree']
      rfl
    · exact .widen (joined first behind) (List.suffix_append _ _).isInfix solid
  exact Takes.separated Cursor.areWays takes (TakesRule.just .comma) stop trailing more
    (Takes.exactly_recorded _) none some

/-- A literal or variable: a single token without anything below it. -/
theorem makes_leaf {token : Token} {span : Span} {make : Span → Expr}
    (phrase : Phrase (.expr .atom)) (same : phrase.tokens = [token])
    (tree : ∀ span, (make span).bare = phrase.tree) (spanned : ∀ span, (make span).span = span)
    (leaf : ∀ span, (Node.expression (make span)).children = []) :
    (expr .atom).Makes .expression [(token, span)] make := by
  refine ⟨⟨phrase, same, tree⟩, spanned, fun span _ => ?_⟩
  rw [leaf span]
  exact .nil

private theorem takes_atom (takes : TakesRule inner (expr .comparison).Places) :
    TakesRule (Grammar.atom inner) (expr .atom).Places := by
  have value_takes : TakesRule value ((expr .atom).Makes .expression) := by
    apply Takes.item Cursor.areWays
    intro token span make place taken
    cases token with
    | int v =>
      cases taken
      exact makes_leaf (.int v) rfl (fun _ => rfl) (fun _ => rfl) fun _ => rfl
    | float v =>
      cases taken
      exact makes_leaf (.float v) rfl (fun _ => rfl) (fun _ => rfl) fun _ => rfl
    | _ => cases taken
  have call_takes : TakesRule (Grammar.call inner) ((expr .atom).Makes .expression) := by
    have listed : TakesRule inner (entry .argument).Places := by
      refine Takes.imp takes ?_
      rintro word e _ ⟨⟨phrase, same, tree⟩, fits⟩
      exact ⟨⟨.argument phrase, same, tree⟩, fits⟩
    refine takes_name.seq (TakesRule.between_just _ _ (@takes_list .argument inner listed)) ?_
    rintro _ callee _ arguments ⟨span, rfl⟩ ⟨left, word, right, rfl, ⟨⟨phrase, same, tree⟩, fits⟩⟩
    have part : word <:+:
        [(.ident callee, span)] ++ (.parenOpen, left) :: (word ++ [(.parenClose, right)]) :=
      ⟨[(.ident callee, span), (.parenOpen, left)], [(.parenClose, right)], by simp⟩
    refine ⟨⟨.call callee phrase, by simp [same], fun _ => ?_⟩, fun _ => rfl, fun _ solid => ?_⟩
    · change Expr.bare _ = _
      rw [Expr.bare, Expr.bareAll_eq_map, Phrase.tree, ← tree]
      rfl
    · rw [Node.children, List.map_eq_flatMap]
      exact .widen fits part solid
  have var_takes : TakesRule (name.map Expr.var) ((expr .atom).Makes .expression) := by
    refine Takes.map takes_name ?_
    rintro _ x _ ⟨span, rfl⟩
    exact makes_leaf (.var x) rfl (fun _ => rfl) (fun _ => rfl) fun _ => rfl
  refine Takes.either ?_ ?_
  · exact @takes_spanned (expr .atom) .expression _
      ((value_takes.either call_takes).either var_takes) rfl (fun _ => rfl)
      (by rintro _ _ _ _ _ ⟨⟩)
  · refine Takes.imp (TakesRule.between_just _ _ takes) ?_
    rintro _ e _ ⟨left, word, right, rfl, ⟨⟨phrase, same, tree⟩, fits⟩⟩
    exact ⟨⟨.group phrase, by simp [same], tree⟩, .widen fits (isInfix_inner _ _ word)⟩

/-- Signs in front of an expression negate it, the last one first. -/
theorem fits_signs (spans : List Span) {word : List (Token × Span)} {e : Expr}
    (fits : Solid word → Fits word [.expression e])
    (solid : Solid (spans.map (Token.minus, ·) ++ word)) :
    Fits (spans.map (Token.minus, ·) ++ word)
      [.expression (spans.foldr (fun sign e => .neg e (sign.union e.span)) e)] := by
  induction spans with
  | nil => exact fits solid
  | cons span spans ih =>
    exact .negate solid (ih (solid.of_isInfix (isInfix_behind _ _)))

private theorem takes_unary (takes : TakesRule inner (expr .comparison).Places) :
    TakesRule (Grammar.unary inner) (expr .unary).Places := by
  have sign : TakesRule (Parser.spanned ((Parser.just Token.minus).map fun _ span => span))
      fun word span => word = [(.minus, span)] := by
    have made : TakesRule ((Parser.just Token.minus).map fun _ span => span)
        fun word (make : Span → Span) => make = id ∧ ∃ span, word = [(.minus, span)] :=
      (TakesRule.just _).map fun _ _ _ found => ⟨rfl, found⟩
    refine Takes.spanned made ?_
    rintro cursor _ _ place passes ⟨rfl, span, rfl⟩
    rw [id, eq_of_covers_singleton (passes.since (by simp))]
  have signs : TakesRule (Parser.many (Parser.spanned ((Parser.just Token.minus).map
      fun _ span => span))) fun word spans => word = spans.map (Token.minus, ·) := by
    refine sign.many rfl ?_
    rintro _ span _ spans rfl rfl
    rfl
  refine signs.seq (takes_atom takes) ?_
  rintro _ spans word e rfl ⟨⟨phrase, same, tree⟩, fits⟩
  refine ⟨⟨.unary spans.length phrase, ?_, ?_⟩, fits_signs spans fits⟩
  · simp [same, Function.comp_def, List.map_const']
  · refine (Phrase.bare_signs spans e).trans ?_
    rw [Phrase.tree, ← tree]
    rfl

/-- Operands are joined from the left to the right. -/
theorem fits_joined {word : List (Token × Span)} (links : List (Operator × Expr)) {first : Expr}
    (fits : Fits word (.expression first :: links.map fun link => .expression link.2)) :
    Fits word [.expression (links.foldl join first)] := by
  induction links generalizing first with
  | nil => exact fits
  | cons link links ih => exact ih fits.join

private theorem takes_chain {rank : Rank} {operand : Rule Expr}
    (takes : TakesRule operand (expr rank.operand).Places) :
    TakesRule (Grammar.chain rank.sign operand) (expr (.chain rank)).Places := by
  have links_take : TakesRule (Parser.many (Parser.both rank.sign operand)) (links rank).Places := by
    refine ((takes_sign rank).both takes).many ⟨⟨.noLinks, rfl, rfl⟩, fun _ => .nil⟩ ?_
    rintro _ ⟨_, e⟩ rest es
      ⟨sign, word, rfl, ⟨op, ranked, rfl, op_same⟩, ⟨⟨phrase, same, tree⟩, fits⟩⟩
      ⟨⟨phrase', same', tree'⟩, fits'⟩
    refine ⟨⟨.link op ranked phrase phrase', by simp [op_same, same, same'], ?_⟩, fun solid => ?_⟩
    · rw [Phrase.tree, ← tree, ← tree']
      rfl
    · obtain ⟨front, back⟩ := solid.of_append
      have operand_fits := Fits.widen fits (List.suffix_append sign word).isInfix front
      exact operand_fits.append solid (fits' back)
  refine takes.seq links_take ?_
  rintro word first word' pairs ⟨⟨phrase, same, tree⟩, fits⟩ ⟨⟨phrase', same', tree'⟩, fits'⟩
  refine ⟨⟨.chain phrase phrase', by simp [same, same'], ?_⟩, fun solid => ?_⟩
  · refine (Phrase.bare_foldl_join pairs first).trans ?_
    rw [Phrase.tree, ← tree, ← tree']
    rfl
  · exact fits_joined pairs ((fits solid.of_append.1).append solid (fits' solid.of_append.2))

private theorem takes_comparison (takes : TakesRule inner (expr .comparison).Places) :
    TakesRule (Grammar.comparison inner) (expr .comparison).Places := by
  have product_takes : TakesRule (Grammar.product inner) (expr (.chain .product)).Places :=
    @takes_chain .product _ (takes_unary takes)
  have sum_takes : TakesRule (Grammar.sum inner) (expr (.chain .sum)).Places :=
    @takes_chain .sum _ product_takes
  have right_takes : TakesRule (Parser.optional (Parser.both comparator (Grammar.sum inner)))
      fun word found => found = none ∧ word = [] ∨ ∃ (op : Comparison) (e : Expr)
        (sign right : List (Token × Span)), found = some (.compare op, e) ∧ word = sign ++ right ∧
          sign.map Prod.fst = [op.token] ∧ (expr (.chain .sum)).Places right e := by
    refine Takes.optional Cursor.areWays (takes_comparator.both sum_takes) ?_
      fun _ => .inl ⟨rfl, rfl⟩
    rintro _ ⟨_, e⟩ _ ⟨sign, right, rfl, ⟨op, rfl, op_same⟩, placed⟩
    exact .inr ⟨op, e, sign, right, rfl, rfl, op_same, placed⟩
  refine sum_takes.seq right_takes ?_
  rintro word left _ _ ⟨⟨phrase, same, tree⟩, fits⟩
    (⟨rfl, rfl⟩ | ⟨op, right, sign, word', rfl, rfl, op_same, ⟨⟨phrase', same', tree'⟩, fits'⟩⟩)
  · rw [List.append_nil]
    exact ⟨⟨.sum phrase, same, tree⟩, fits⟩
  · refine ⟨⟨.compare phrase op phrase', by simp [op_same, same, same'], ?_⟩, fun solid => ?_⟩
    · rw [Phrase.tree, ← tree, ← tree']
      rfl
    · obtain ⟨front, back⟩ := solid.of_append
      have right_fits := Fits.widen fits' (List.suffix_append sign word').isInfix back
      exact ((fits front).append solid right_fits).join

private theorem takes_expression (depth : Nat) :
    TakesRule (expression depth) (expr .comparison).Places := by
  induction depth with
  | zero =>
    intro cursor s done
    cases done
  | succ depth ih => exact takes_comparison ih

end Expressions

section Statements

variable {e : Rule Expr} {inner : Rule Stmt} {word : List (Token × Span)}

/-- A name fits where its token is. -/
theorem fits_name {token : Token} {ident : Ident} (solid : Solid word)
    (part : [(token, ident.span)] <:+: word) : Fits word [.name ident] := by
  have covers : Covers (Node.name ident).span [(token, ident.span)] := ⟨_, rfl, _, rfl, rfl⟩
  exact (Fits.close (solid.of_isInfix part) covers .nil fun _ => nofun).mono part

/-- The token behind a keyword is a part of what begins with them. -/
theorem isInfix_second (first second : Token × Span) (rest : List (Token × Span)) :
    [second] <:+: first :: second :: rest := ⟨[first], rest, rfl⟩

theorem takes_statements (takes : TakesRule inner statement.Places) :
    TakesRule (Parser.many inner) statements.Places := by
  refine takes.many ⟨⟨.noStatements, rfl, rfl⟩, fun _ => .nil⟩ ?_
  rintro word s rest ss ⟨⟨phrase, same, tree⟩, fits⟩ ⟨⟨phrase', same', tree'⟩, fits'⟩
  refine ⟨⟨.statements phrase phrase', by simp [same, same'], ?_⟩, fun solid => ?_⟩
  · rw [Phrase.tree, ← tree, ← tree']
    rfl
  · exact (fits solid.of_append.1).append solid (fits' solid.of_append.2)

theorem takes_block (takes : TakesRule inner statement.Places) :
    TakesRule (block inner) fun word ss => ∃ body : Phrase .statements,
      word.map Prod.fst = braced body.tokens ∧ Stmt.bareAll ss = body.tree ∧
        (Solid word → Fits word (ss.map .statement)) := by
  refine Takes.recovering (Takes.imp (TakesRule.between_just _ _ (takes_statements takes)) ?_)
  rintro _ ss _ ⟨left, word, right, rfl, ⟨⟨phrase, same, tree⟩, fits⟩⟩
  exact ⟨phrase, by simp [braced, same], tree, .widen fits (isInfix_inner _ _ word)⟩

private theorem takes_declaration (takes : TakesRule e (expr .comparison).Places) :
    TakesRule (declaration e) (statement.Makes .statement) := by
  have initial : TakesRule (Parser.optional (headed .assign e)) fun word found =>
      found = none ∧ word = [] ∨ ∃ (value : Expr) (sign : Span) (rest : List (Token × Span)),
        found = some value ∧ word = (.assign, sign) :: rest ∧
          (expr .comparison).Places rest value := by
    refine Takes.optional Cursor.areWays (TakesRule.skipLeft_just .assign takes) ?_
      fun _ => .inl ⟨rfl, rfl⟩
    rintro _ value _ ⟨sign, rest, rfl, placed⟩
    exact .inr ⟨value, sign, rest, rfl, rfl, placed⟩
  have named := (TakesRule.skipLeft_just .kwVar takes_ident).both takes_optional_kind
  refine Takes.refine (TakesRule.skipRight_just .semicolon (named.both initial)) ?_
  rintro _ ⟨⟨i, k⟩, _⟩ make _ ⟨_, mark, rfl, _, _, rfl, ⟨_, kinds, rfl, ⟨start, _, rfl, rfl⟩,
    kinds_same⟩, ⟨rfl, rfl⟩ | ⟨value, sign, rest, rfl, rfl, ⟨phrase, same, tree⟩, fits⟩⟩ declared
  · -- Without a value there has to be a kind.
    cases k with
    | none => cases declared
    | some k =>
      cases declared
      refine ⟨⟨.declare i.name k, ?_, fun _ => rfl⟩, fun _ => rfl, fun _ solid => ?_⟩
      · simp [kinds_same, kindTokens]
      · exact fits_name solid (isInfix_second _ _ _)
  · cases declared
    refine ⟨⟨.define i.name k phrase, ?_, fun _ => ?_⟩, fun _ => rfl, fun _ solid => ?_⟩
    · simp [kinds_same, same]
    · rw [Phrase.tree, ← tree]
      rfl
    · have inside := solid.of_append.1
      obtain ⟨front, back⟩ := inside.of_append
      have initial_fits := Fits.widen fits (isInfix_behind (.assign, sign) rest) back
      have name_fits := fits_name front (isInfix_second _ _ kinds)
      exact (name_fits.append inside initial_fits).mono (List.prefix_append _ _).isInfix

private theorem takes_parameters : TakesRule parameters fun word pairs =>
    ∃ phrase : Phrase (.list .parameter), pairs = phrase.tree ∧
      word.map Prod.fst = .parenOpen :: (phrase.tokens ++ [.parenClose]) := by
  have entry_takes : TakesRule (Parser.both name kind) (entry .parameter).Places := by
    refine (takes_name.both takes_kind).imp ?_
    rintro _ ⟨x, k⟩ _ ⟨_, kinds, rfl, ⟨span, rfl⟩, same⟩
    exact ⟨⟨.parameter x k, by simp [same], rfl⟩, fun _ => .nil⟩
  refine Takes.imp (TakesRule.between_just _ _ (@takes_list .parameter _ entry_takes)) ?_
  rintro _ pairs _ ⟨left, word, right, rfl, ⟨⟨phrase, same, tree⟩, -⟩⟩
  exact ⟨phrase, (Entry.map_bare_parameter pairs).symm.trans tree, by simp [same]⟩

private theorem takes_function (takes : TakesRule inner statement.Places) :
    TakesRule (Grammar.function inner) (statement.Makes .statement) := by
  refine (((TakesRule.skipLeft_just .kwFunc takes_ident).both takes_parameters).both
    takes_optional_kind).seq (takes_block takes) ?_
  rintro _ ⟨⟨i, _⟩, k⟩ word body ⟨_, kinds, rfl, ⟨_, listed, rfl, ⟨start, _, rfl, rfl⟩,
    phrase, rfl, same⟩, kinds_same⟩ ⟨phrase', same', tree', fits'⟩
  refine ⟨⟨.function i.name phrase k phrase', ?_, fun _ => ?_⟩, fun _ => rfl, fun _ solid => ?_⟩
  · simp [same, kinds_same, same']
  · rw [Phrase.tree, ← tree']
    rfl
  · obtain ⟨front, back⟩ := solid.of_append
    have name_fits := fits_name front (isInfix_second _ _ (listed ++ kinds))
    exact name_fits.append solid (fits' back)

private theorem takes_ifElse (takes : TakesRule e (expr .comparison).Places)
    (inner_takes : TakesRule inner statement.Places) :
    TakesRule (Grammar.ifElse e inner) (statement.Makes .statement) := by
  have otherwise : TakesRule (Parser.optional (headed .kwElse (block inner))) fun word found =>
      found = none ∧ word = [] ∨ ∃ (body : List Stmt) (phrase : Phrase .statements),
        found = some body ∧ word.map Prod.fst = .kwElse :: braced phrase.tokens ∧
          Stmt.bareAll body = phrase.tree ∧ (Solid word → Fits word (body.map .statement)) := by
    refine Takes.optional Cursor.areWays (TakesRule.skipLeft_just .kwElse (takes_block inner_takes))
      ?_ fun _ => .inl ⟨rfl, rfl⟩
    rintro _ body _ ⟨start, rest, rfl, phrase, same, tree, fits⟩
    exact .inr ⟨body, phrase, rfl, by simp [same], tree, .widen fits (isInfix_behind _ rest)⟩
  refine ((TakesRule.skipLeft_just .kwIf takes).both (takes_block inner_takes)).seq otherwise ?_
  rintro _ ⟨condition, ifTrue⟩ word _ ⟨_, word', rfl, ⟨start, rest, rfl, ⟨phrase, same, tree⟩, fits⟩,
    phrase', same', tree', fits'⟩ found
  have front_fits (solid : Solid ((Token.kwIf, start) :: rest ++ word')) :
      Fits ((Token.kwIf, start) :: rest ++ word')
        (.expression condition :: ifTrue.map .statement) := by
    obtain ⟨front, back⟩ := solid.of_append
    exact (Fits.widen fits (isInfix_behind _ rest) front).append solid (fits' back)
  obtain ⟨rfl, rfl⟩ | ⟨ifFalse, phrase'', rfl, same'', tree'', fits''⟩ := found
  · rw [List.append_nil]
    refine ⟨⟨.branch phrase phrase', by simp [same, same'], fun _ => ?_⟩, fun _ => rfl,
      fun _ solid => ?_⟩
    · rw [Phrase.tree, ← tree, ← tree']
      rfl
    · simpa [Node.children] using front_fits solid
  · refine ⟨⟨.branchElse phrase phrase' phrase'', by simp [same, same', same''], fun _ => ?_⟩,
      fun _ => rfl, fun _ solid => ?_⟩
    · rw [Phrase.tree, ← tree, ← tree', ← tree'']
      rfl
    · obtain ⟨front, back⟩ := solid.of_append
      exact (front_fits front).append solid (fits'' back)

private theorem takes_loop (takes : TakesRule e (expr .comparison).Places)
    (inner_takes : TakesRule inner statement.Places) :
    TakesRule (Grammar.loop e inner) (statement.Makes .statement) := by
  refine (TakesRule.skipLeft_just .kwWhile takes).seq (takes_block inner_takes) ?_
  rintro _ condition word body ⟨start, rest, rfl, ⟨phrase, same, tree⟩, fits⟩
    ⟨phrase', same', tree', fits'⟩
  refine ⟨⟨.loop phrase phrase', by simp [same, same'], fun _ => ?_⟩, fun _ => rfl, fun _ solid => ?_⟩
  · rw [Phrase.tree, ← tree, ← tree']
    rfl
  · obtain ⟨front, back⟩ := solid.of_append
    exact (Fits.widen fits (isInfix_behind _ rest) front).append solid (fits' back)

private theorem takes_assign (takes : TakesRule e (expr .comparison).Places) :
    TakesRule (Grammar.assign e) (statement.Makes .statement) := by
  have target := TakesRule.skipRight_just .assign takes_ident
  have joined : TakesRule (Parser.seq Stmt.assign (Parser.skipRight ident (Parser.just .assign)) e)
      fun word make => ∃ (i : Ident) (value : Expr) (sign : Span) (rest : List (Token × Span)),
        make = .assign i value ∧ word = [(.ident i.name, i.span), (.assign, sign)] ++ rest ∧
          (expr .comparison).Places rest value := by
    refine target.seq takes ?_
    rintro _ i rest value ⟨_, sign, rfl, rfl⟩ placed
    exact ⟨i, value, sign, rest, rfl, rfl, placed⟩
  refine Takes.imp (TakesRule.skipRight_just .semicolon joined) ?_
  rintro _ _ _ ⟨_, mark, rfl, i, value, sign, rest, rfl, rfl, ⟨phrase, same, tree⟩, fits⟩
  refine ⟨⟨.assign i.name phrase, by simp [same], fun _ => ?_⟩, fun _ => rfl, fun _ solid => ?_⟩
  · rw [Phrase.tree, ← tree]
    rfl
  · have inside := solid.of_append.1
    obtain ⟨front, back⟩ := inside.of_append
    have name_fits := fits_name front (List.prefix_append _ [(Token.assign, sign)]).isInfix
    exact (name_fits.append inside (fits back)).mono (List.prefix_append _ _).isInfix

/-- A keyword, an expression and a semicolon. -/
theorem takes_command (keyword : Token) (takes : TakesRule e (expr .comparison).Places) :
    TakesRule (terminated (headed keyword e)) fun word value =>
      ∃ phrase : Phrase (.expr .comparison), value.bare = phrase.tree ∧
        word.map Prod.fst = keyword :: (phrase.tokens ++ [.semicolon]) ∧
          (Solid word → Fits word [.expression value]) := by
  refine Takes.imp (TakesRule.skipRight_just _ (TakesRule.skipLeft_just _ takes)) ?_
  rintro _ value _ ⟨_, mark, rfl, start, word, rfl, ⟨phrase, same, tree⟩, fits⟩
  exact ⟨phrase, tree, by simp [same], .widen fits (isInfix_inner _ _ word)⟩

/-- Every alternative of a statement takes what a production derives. -/
theorem takes_statement (takes : TakesRule e (expr .comparison).Places) (depth : Nat) :
    TakesRule (Grammar.statement e depth) statement.Places := by
  induction depth with
  | zero =>
    intro cursor s done
    cases done
  | succ depth ih =>
    rw [Phrase.statement_succ]
    have each : ∀ p ∈ Phrase.alternatives e (Grammar.statement e depth),
        TakesRule p (statement.Makes .statement) := by
      simp only [Phrase.alternatives, List.forall_mem_cons, List.not_mem_nil, false_implies,
        implies_true, and_true]
      refine ⟨takes_declaration takes, takes_function ih, takes_ifElse takes ih, takes_loop takes ih,
        ?_, ?_, takes_assign takes, ?_⟩
      · refine Takes.map (takes_command .kwPrint takes) ?_
        rintro word value _ ⟨phrase, tree, same, fits⟩
        exact ⟨⟨.print phrase, same.symm, fun _ => congrArg (Stmt.print · {}) tree⟩, fun _ => rfl,
          fun _ => fits⟩
      · refine Takes.map (takes_command .kwReturn takes) ?_
        rintro word value _ ⟨phrase, tree, same, fits⟩
        exact ⟨⟨.ret phrase, same.symm, fun _ => congrArg (Stmt.ret · {}) tree⟩, fun _ => rfl,
          fun _ => fits⟩
      · refine Takes.map (TakesRule.skipRight_just .semicolon takes) ?_
        rintro _ value _ ⟨word, mark, rfl, ⟨phrase, same, tree⟩, fits⟩
        exact ⟨⟨.eval phrase, by simp [same], fun _ => congrArg (Stmt.eval · {}) tree⟩,
          fun _ => rfl, fun _ => .widen fits (List.prefix_append _ _).isInfix⟩
    refine @takes_spanned statement .statement _ (Takes.choice each) rfl (fun _ => rfl) ?_
    rintro word _ derived covers s ⟨⟩
    exact ⟨word, List.infix_rfl, covers, derived⟩

/-- A program takes all tokens. -/
theorem takes_program (depth : Nat) : Takes Cursor.Passes (Grammar.program depth)
    fun word ss place => statements.Places word ss ∧ place.ahead = [] := by
  have body := takes_statements (takes_statement (takes_expression (depth + 1)) (depth + 1))
  refine Takes.imp (Takes.skipRight body Cursor.areWays (Takes.finished Cursor.areWays)) ?_
  rintro _ ss place ⟨word, _, middle, -, rfl, placed, -, rfl, none⟩
  rw [List.append_nil]
  exact ⟨placed, none⟩

end Statements

end Wabbit.Source
