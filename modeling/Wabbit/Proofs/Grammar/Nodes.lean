import Wabbit.Proofs.Grammar.Bare
import Wabbit.Proofs.Grammar.Phrases
import Wabbit.Proofs.Parsing.Places

/-!
The nodes of a source tree that know their places, and how the places of a node and of its parts lie
to each other. Some nodes take their span from the tokens that they were read from and others from
the spans of their children; both fit into the tokens.
-/

namespace Wabbit

/-- The first range contains the second one. -/
def Span.Contains (outer inner : Span) : Prop :=
  outer.start ≤ inner.start ∧ inner.stop ≤ outer.stop

theorem Span.Contains.trans {outer middle inner : Span} (first : outer.Contains middle)
    (second : middle.Contains inner) : outer.Contains inner :=
  ⟨Nat.le_trans first.1 second.1, Nat.le_trans second.2 first.2⟩

namespace Source

open Parsing

/-- A part of a source tree that knows its place. -/
inductive Node where
  | statement (s : Stmt)
  | expression (e : Expr)
  | name (ident : Ident)

namespace Node

/-- The text that the node was read from. -/
def span : Node → Span
  | statement s => s.span
  | expression e => e.span
  | name ident => ident.span

/-- The nodes right below a node, in the order in which the grammar puts them. -/
def children : Node → List Node
  | statement (.declare ident _ _) => [name ident]
  | statement (.define ident _ value _) => [name ident, expression value]
  | statement (.assign ident value _) => [name ident, expression value]
  | statement (.print value _) => [expression value]
  | statement (.ifElse condition ifTrue ifFalse _) =>
    expression condition :: (ifTrue.map statement ++ ifFalse.map statement)
  | statement (.loop condition body _) => expression condition :: body.map statement
  | statement (.function ident _ _ body _) => name ident :: body.map statement
  | statement (.ret value _) => [expression value]
  | statement (.eval value _) => [expression value]
  | expression (.int _ _) => []
  | expression (.float _ _) => []
  | expression (.var _ _) => []
  | expression (.neg inner _) => [expression inner]
  | expression (.binary _ left right _) => [expression left, expression right]
  | expression (.call _ arguments _) => arguments.map expression
  | name _ => []

/-- The node itself, and the nodes below it. -/
inductive Has (root : Node) : Node → Prop where
  | self : Has root root
  | child {node child : Node} (has : Has root node) (member : child ∈ node.children) : Has root child

private theorem Has.cases_root {root node : Node} (has : root.Has node) :
    node = root ∨ ∃ child ∈ root.children, child.Has node := by
  induction has with
  | self => exact .inl rfl
  | child _ member ih =>
    obtain rfl | ⟨child, below, has⟩ := ih
    · exact .inr ⟨_, member, .self⟩
    · exact .inr ⟨child, below, has.child member⟩

theorem Has.trans {root node node' : Node} (has : root.Has node) (has' : node.Has node') :
    root.Has node' := by
  induction has' with
  | self => exact has
  | child _ member ih => exact ih.child member

/-- The node stands somewhere in a program. -/
def In (node : Node) (program : List Stmt) : Prop := ∃ s ∈ program, (statement s).Has node

variable {program : List Stmt} {node below : Node}

theorem In.child (inside : node.In program) (member : below ∈ node.children) : below.In program := by
  obtain ⟨s, known, has⟩ := inside
  exact ⟨s, known, has.child member⟩

end Node

/-- The statement was read from a part of the tokens: the grammar derives it from them, and its span
goes from the first to the last of them. -/
def Stmt.Stands (tokens : List (Token × Span)) (s : Stmt) : Prop :=
  ∃ word, word <:+: tokens ∧ Covers s.span word ∧
    ∃ phrase : Phrase .statement, phrase.tokens = word.map Prod.fst ∧ s.bare = phrase.tree

/-- The places of a node and its children. The span of the node is not empty and contains those of
its children, which follow each other; a statement stands among the tokens. -/
structure Node.Nests (tokens : List (Token × Span)) (node : Node) : Prop where
  nonempty : node.span.start < node.span.stop
  contains : ∀ child ∈ node.children, node.span.Contains child.span
  apart : node.children.Pairwise fun a b => a.span.stop ≤ b.span.start
  stands : ∀ s, node = .statement s → s.Stands tokens

/-- The spans of the tokens are not empty and follow each other. -/
structure Solid (word : List (Token × Span)) : Prop where
  ordered : InOrder word
  nonempty : ∀ item ∈ word, item.2.start < item.2.stop

/-- The nodes lie one behind the other where the tokens are, and so does everything below them. -/
structure Fits (word : List (Token × Span)) (nodes : List Node) : Prop where
  nests : ∀ root ∈ nodes, ∀ node, root.Has node → node.Nests word
  within : ∀ node ∈ nodes, (∃ item ∈ word, item.2.start ≤ node.span.start) ∧
    ∃ item ∈ word, node.span.stop ≤ item.2.stop
  apart : nodes.Pairwise fun a b => a.span.stop ≤ b.span.start

section Fitting

variable {word word' wider : List (Token × Span)} {nodes nodes' rest : List Node} {node : Node}

theorem Solid.of_append (solid : Solid (word ++ word')) : Solid word ∧ Solid word' := by
  obtain ⟨front, back⟩ := solid.ordered.of_append
  exact ⟨⟨front, fun item member => solid.nonempty item (by simp [member])⟩,
    ⟨back, fun item member => solid.nonempty item (by simp [member])⟩⟩

theorem Solid.of_isInfix (solid : Solid wider) (part : word <:+: wider) : Solid word := by
  obtain ⟨front, back, rfl⟩ := part
  exact solid.of_append.1.of_append.2

private theorem Node.Nests.mono (nests : node.Nests word) (part : word <:+: wider) :
    node.Nests wider := by
  refine ⟨nests.nonempty, nests.contains, nests.apart, fun s same => ?_⟩
  obtain ⟨own, inside, stands⟩ := nests.stands s same
  exact ⟨own, inside.trans part, stands⟩

namespace Fits

theorem nil : Fits word [] := ⟨nofun, nofun, .nil⟩

theorem mono (fits : Fits word nodes) (part : word <:+: wider) : Fits wider nodes := by
  refine ⟨fun root member node has => (fits.nests root member node has).mono part,
    fun node member => ?_, fits.apart⟩
  obtain ⟨⟨first, known, start⟩, last, known', stop⟩ := fits.within node member
  exact ⟨⟨first, part.subset known, start⟩, last, part.subset known', stop⟩

/-- What fits into its own tokens fits into more tokens around them. -/
theorem widen (fits : Solid word → Fits word nodes) (part : word <:+: wider) (solid : Solid wider) :
    Fits wider nodes :=
  (fits (solid.of_isInfix part)).mono part

theorem append (solid : Solid (word ++ word')) (fits : Fits word nodes) (fits' : Fits word' nodes') :
    Fits (word ++ word') (nodes ++ nodes') := by
  have front := fits.mono (List.prefix_append word word').isInfix
  have back := fits'.mono (List.suffix_append word word').isInfix
  refine ⟨List.forall_mem_append.mpr ⟨front.nests, back.nests⟩,
    List.forall_mem_append.mpr ⟨front.within, back.within⟩,
    List.pairwise_append.mpr ⟨fits.apart, fits'.apart, fun a member b member' => ?_⟩⟩
  obtain ⟨-, last, known, stop⟩ := fits.within a member
  obtain ⟨⟨first, known', start⟩, -⟩ := fits'.within b member'
  have between := (List.pairwise_append.mp solid.ordered.apart).2.2 last known first known'
  omega

/-- A node in front of others takes the place of its children. -/
theorem gather (fits : Fits word (node.children ++ rest)) (nests : node.Nests word)
    (within : (∃ item ∈ word, item.2.start ≤ node.span.start) ∧
      ∃ item ∈ word, node.span.stop ≤ item.2.stop)
    (before : ∀ other ∈ rest, node.span.stop ≤ other.span.start) : Fits word (node :: rest) := by
  obtain ⟨children, others⟩ := List.forall_mem_append.mp fits.nests
  refine ⟨List.forall_mem_cons.mpr ⟨fun below has => ?_, others⟩,
    List.forall_mem_cons.mpr ⟨within, (List.forall_mem_append.mp fits.within).2⟩,
    .cons before (List.pairwise_append.mp fits.apart).2.1⟩
  obtain rfl | ⟨child, member, has⟩ := has.cases_root
  · exact nests
  · exact children child member below has

/-- A node whose span covers the tokens stands around its children. -/
theorem close (solid : Solid word) (covers : Covers node.span word) (fits : Fits word node.children)
    (stands : ∀ s, node = .statement s → s.Stands word) : Fits word [node] := by
  obtain ⟨item, member⟩ := List.exists_mem_of_ne_nil word covers.ne_nil
  have contains {item : Token × Span} (member : item ∈ word) := covers.contains solid.ordered member
  have nonempty : node.span.start < node.span.stop := by
    have own := contains member
    have positive := solid.nonempty item member
    omega
  have nests : node.Nests word := by
    refine ⟨nonempty, fun child below => ?_, fits.apart, stands⟩
    obtain ⟨⟨first, known, start⟩, last, known', stop⟩ := fits.within child below
    exact ⟨Nat.le_trans (contains known).1 start, Nat.le_trans stop (contains known').2⟩
  refine gather (by rwa [List.append_nil]) nests ?_ nofun
  obtain ⟨first, front, last, back, same⟩ := covers
  rw [same]
  exact ⟨⟨first, List.mem_of_mem_head? front, Nat.le_refl _⟩, last, List.mem_of_getLast? back,
    Nat.le_refl _⟩

/-- Two operands are joined to one. -/
theorem join {op : Operator} {left right : Expr}
    (fits : Fits word (.expression left :: .expression right :: rest)) :
    Fits word (.expression (.binary op left right (left.span.union right.span)) :: rest) := by
  have left_nonempty := (fits.nests _ (List.mem_cons_self ..) _ .self).nonempty
  have right_nonempty :=
    (fits.nests _ (List.mem_cons_of_mem _ (List.mem_cons_self ..)) _ .self).nonempty
  have between := List.rel_of_pairwise_cons fits.apart (List.mem_cons_self ..)
  obtain ⟨first, -⟩ := fits.within _ (List.mem_cons_self ..)
  obtain ⟨-, last⟩ := fits.within _ (List.mem_cons_of_mem _ (List.mem_cons_self ..))
  change left.span.start < left.span.stop at left_nonempty
  change right.span.start < right.span.stop at right_nonempty
  change left.span.stop ≤ right.span.start at between
  -- The operands do not overlap, so their union goes from the first to the second one.
  have whole : left.span.union right.span = ⟨left.span.start, right.span.stop⟩ := by
    rw [Span.union, Nat.min_eq_left (by omega), Nat.max_eq_right (by omega)]
  rw [whole]
  refine gather fits ⟨?_, ?_, ?_, nofun⟩ ⟨first, last⟩ ?_
  · change left.span.start < right.span.stop
    omega
  · refine List.forall_mem_cons.mpr ⟨⟨Nat.le_refl _, ?_⟩,
      List.forall_mem_cons.mpr ⟨⟨?_, Nat.le_refl _⟩, nofun⟩⟩
    · exact Nat.le_trans between (Nat.le_of_lt right_nonempty)
    · exact Nat.le_trans (Nat.le_of_lt left_nonempty) between
  · exact .cons (List.forall_mem_singleton.mpr between) (.cons nofun .nil)
  · exact fun other member => List.rel_of_pairwise_cons (List.pairwise_cons.mp fits.apart).2 member

/-- A sign in front of an expression negates it. -/
theorem negate {sign : Token × Span} {inner : Expr} (solid : Solid (sign :: word))
    (fits : Fits word [.expression inner]) :
    Fits (sign :: word) [.expression (.neg inner (sign.2.union inner.span))] := by
  have inner_nonempty := (fits.nests _ (List.mem_cons_self ..) _ .self).nonempty
  obtain ⟨⟨first, known, start⟩, last, known', stop⟩ := fits.within _ (List.mem_cons_self ..)
  have sign_nonempty := solid.nonempty sign (List.mem_cons_self ..)
  have between := List.rel_of_pairwise_cons solid.ordered.apart known
  change inner.span.start < inner.span.stop at inner_nonempty
  change first.2.start ≤ inner.span.start at start
  have whole : sign.2.union inner.span = ⟨sign.2.start, inner.span.stop⟩ := by
    rw [Span.union, Nat.min_eq_left (by omega), Nat.max_eq_right (by omega)]
  rw [whole]
  refine gather (fits.mono (List.suffix_cons sign word).isInfix) ⟨?_, ?_, ?_, nofun⟩
    ⟨⟨sign, List.mem_cons_self .., Nat.le_refl _⟩, last, List.mem_cons_of_mem _ known', stop⟩ nofun
  · change sign.2.start < inner.span.stop
    omega
  · have before : sign.2.start ≤ inner.span.start := by omega
    exact List.forall_mem_singleton.mpr ⟨before, Nat.le_refl _⟩
  · exact .cons nofun .nil

end Fits

end Fitting

end Source

end Wabbit
