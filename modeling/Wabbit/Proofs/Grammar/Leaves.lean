import Wabbit.Proofs.Grammar.Bare
import Wabbit.Proofs.Grammar.Phrases

/-!
The names and numbers of a tree, in the order of the text. They are the tokens of its derivation that
are names and numbers; what else was written shows in the form of the tree only.
-/

namespace Wabbit

/-- Whether the token is a name or a number. -/
@[simp]
def Token.isLeaf : Token → Bool
  | int _ | float _ | ident _ => true
  | _ => false

namespace Source

mutual

/-- The names and numbers of an expression. -/
def Expr.leaves : Expr → List Token
  | .int value _ => [.int value]
  | .float value _ => [.float value]
  | .var name _ => [.ident name]
  | .neg inner _ => inner.leaves
  | .binary _ left right _ => left.leaves ++ right.leaves
  | .call callee arguments _ => .ident callee :: Expr.allLeaves arguments

/-- The names and numbers of several expressions. -/
def Expr.allLeaves : List Expr → List Token
  | [] => []
  | first :: rest => first.leaves ++ Expr.allLeaves rest

end

mutual

/-- The names and numbers of a statement. -/
def Stmt.leaves : Stmt → List Token
  | .declare name _ _ => [.ident name.name]
  | .define name _ value _ => .ident name.name :: value.leaves
  | .assign name value _ => .ident name.name :: value.leaves
  | .print value _ => value.leaves
  | .ifElse condition ifTrue ifFalse _ =>
    condition.leaves ++ Stmt.allLeaves ifTrue ++ Stmt.allLeaves ifFalse
  | .loop condition body _ => condition.leaves ++ Stmt.allLeaves body
  | .function name parameters _ body _ =>
    .ident name.name :: (parameters.map fun p => .ident p.1) ++ Stmt.allLeaves body
  | .ret value _ => value.leaves
  | .eval value _ => value.leaves

/-- The names and numbers of several statements. -/
def Stmt.allLeaves : List Stmt → List Token
  | [] => []
  | first :: rest => first.leaves ++ Stmt.allLeaves rest

end

/-- The names and numbers of what is listed. -/
def Entry.leaves : (listed : Entry) → listed.Tree → List Token
  | argument, value => Expr.leaves value
  | parameter, pair => [.ident pair.1]

/-- The names and numbers of a tree. -/
def Category.leaves : (category : Category) → category.Tree → List Token
  | expr _, e => Expr.leaves e
  | links _, pairs => pairs.flatMap fun pair => pair.2.leaves
  | entry listed, tree => listed.leaves tree
  | list listed, trees | others listed, trees => trees.flatMap listed.leaves
  | statement, s => Stmt.leaves s
  | statements, ss => Stmt.allLeaves ss

namespace Phrase

private theorem leaves_chain (links : List (Operator × Expr)) (e : Expr) :
    (links.foldl (fun left link => Expr.binary link.1 left link.2 {}) e).leaves =
      e.leaves ++ links.flatMap fun link => link.2.leaves := by
  induction links generalizing e with
  | nil => simp
  | cons link rest ih => simp [ih, Expr.leaves]

private theorem leaves_signs (signs : Nat) (e : Expr) :
    (Nat.repeat (Expr.neg · {}) signs e).leaves = e.leaves := by
  induction signs with
  | zero => rfl
  | succ signs ih => rw [Nat.repeat, Expr.leaves, ih]

private theorem allLeaves_eq_flatMap (es : List Expr) : Expr.allLeaves es = es.flatMap Expr.leaves := by
  induction es with
  | nil => rfl
  | cons e rest ih => simp [Expr.allLeaves, ih]

@[simp]
private theorem leaves_kindTokens (kind : Option Kind) : (kindTokens kind).filter Token.isLeaf = [] := by
  match kind with
  | none | some .integer | some .float => rfl

@[simp]
private theorem leaves_braced (tokens : List Token) :
    (braced tokens).filter Token.isLeaf = tokens.filter Token.isLeaf := by
  simp [braced]

/-- The tree of a derivation has the names and numbers among its tokens. -/
theorem leaves_tree {category : Category} (phrase : Phrase category) :
    category.leaves phrase.tree = phrase.tokens.filter Token.isLeaf := by
  induction phrase with
  | call callee arguments ih =>
    have arguments_leaves : Expr.allLeaves arguments.tree = arguments.tokens.filter Token.isLeaf :=
      (allLeaves_eq_flatMap _).trans ih
    simp [Category.leaves, Expr.leaves, arguments_leaves, List.filter_cons]
  | function name parameters result body ih ih' =>
    have parameters_leaves : List.map (fun p => Token.ident p.1) parameters.tree =
        parameters.tokens.filter Token.isLeaf := (List.map_eq_flatMap ..).trans ih
    have body_leaves : Stmt.allLeaves body.tree = body.tokens.filter Token.isLeaf := ih'
    simp [Category.leaves, Stmt.leaves, parameters_leaves, body_leaves, List.filter_cons]
  | unary signs inner ih =>
    simp only [Category.leaves] at ih
    simp [Category.leaves, leaves_signs, ih]
  | chain first rest ih ih' =>
    simp only [Category.leaves] at ih ih'
    simp [Category.leaves, leaves_chain, ih, ih']
  | link op _ operand rest ih ih' =>
    simp only [Category.leaves] at ih ih'
    cases op <;> simp [Category.leaves, ih, ih', Arithmetic.token]
  | compare left op right ih ih' =>
    simp only [Category.leaves] at ih ih'
    cases op <;> simp [Category.leaves, Expr.leaves, ih, ih', Comparison.token]
  | parameter name kind | declare name kind => cases kind <;> rfl
  | _ =>
    simp_all [Category.leaves, Entry.leaves, Expr.leaves, Stmt.leaves, Stmt.allLeaves,
      List.filter_cons]

end Phrase

end Source

end Wabbit
