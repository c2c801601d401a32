import Wabbit.Source
import Wabbit.Token

/-!
The grammar of the language as a family of derivations, with one constructor for every production.
A derivation has tokens and a tree; parentheses and commas are among the tokens only. Two
derivations of one category that have the same tokens are equal, also where more tokens follow, as
long as these do not continue a phrase of the category.
-/

namespace Wabbit

/-- The token of a kind. -/
def Kind.token : Kind → Token
  | integer => .kwInt
  | float => .kwFloat

/-- The token of an arithmetic operator. -/
def Arithmetic.token : Arithmetic → Token
  | add => .plus
  | sub => .minus
  | mul => .star
  | div => .slash

/-- The token of a comparison. -/
def Comparison.token : Comparison → Token
  | less => .less
  | lessEq => .lessEq
  | greater => .greater
  | greaterEq => .greaterEq
  | equal => .equal
  | notEqual => .notEqual

namespace Source

/-- The ranks of the arithmetic operators; products are formed before sums. -/
inductive Rank where
  | product
  | sum
  deriving DecidableEq, Repr

/-- The rank of an operator. -/
def Rank.of : Arithmetic → Rank
  | .add | .sub => .sum
  | .mul | .div => .product

/-- The levels of expressions, from the innermost to the outermost. -/
inductive Level where
  | atom
  | unary
  | chain (rank : Rank)
  | comparison
  deriving DecidableEq, Repr

/-- The level of the operands of a chain. -/
abbrev Rank.operand : Rank → Level
  | product => .unary
  | sum => .chain .product

/-- What is listed with commas. -/
inductive Entry where
  | argument
  | parameter
  deriving DecidableEq, Repr

/-- The nonterminals of the grammar. -/
inductive Category where
  | expr (level : Level)
  /-- The operators and operands behind the first operand of a chain. -/
  | links (rank : Rank)
  | entry (listed : Entry)
  | list (listed : Entry)
  /-- What stands behind the first entry of a list. -/
  | others (listed : Entry)
  | statement
  | statements
  deriving DecidableEq, Repr

/-- The trees of what is listed. -/
abbrev Entry.Tree : Entry → Type
  | argument => Expr
  | parameter => String × Kind

/-- The trees of a category. -/
abbrev Category.Tree : Category → Type
  | expr _ => Expr
  | links _ => List (Operator × Expr)
  | entry listed => listed.Tree
  | list listed | others listed => List listed.Tree
  | statement => Stmt
  | statements => List Stmt

/-- The derivations of a category. -/
inductive Phrase : Category → Type where
  | int (value : Int64) : Phrase (.expr .atom)
  | float (value : Binary64) : Phrase (.expr .atom)
  | call (function : String) (arguments : Phrase (.list .argument)) : Phrase (.expr .atom)
  | var (name : String) : Phrase (.expr .atom)
  | group (inner : Phrase (.expr .comparison)) : Phrase (.expr .atom)
  | unary (signs : Nat) (inner : Phrase (.expr .atom)) : Phrase (.expr .unary)
  | chain {rank : Rank} (first : Phrase (.expr rank.operand)) (rest : Phrase (.links rank)) :
      Phrase (.expr (.chain rank))
  | noLinks {rank : Rank} : Phrase (.links rank)
  | link {rank : Rank} (op : Arithmetic) (ranked : Rank.of op = rank)
      (operand : Phrase (.expr rank.operand)) (rest : Phrase (.links rank)) : Phrase (.links rank)
  | sum (inner : Phrase (.expr (.chain .sum))) : Phrase (.expr .comparison)
  | compare (left : Phrase (.expr (.chain .sum))) (op : Comparison)
      (right : Phrase (.expr (.chain .sum))) : Phrase (.expr .comparison)
  | argument (value : Phrase (.expr .comparison)) : Phrase (.entry .argument)
  | parameter (name : String) (kind : Kind) : Phrase (.entry .parameter)
  | noEntries {entry : Entry} : Phrase (.list entry)
  | entries {entry : Entry} (first : Phrase (.entry entry)) (others : Phrase (.others entry)) :
      Phrase (.list entry)
  | noOthers {entry : Entry} : Phrase (.others entry)
  | trailing {entry : Entry} : Phrase (.others entry)
  | other {entry : Entry} (first : Phrase (.entry entry)) (others : Phrase (.others entry)) :
      Phrase (.others entry)
  | declare (name : String) (kind : Kind) : Phrase .statement
  | define (name : String) (kind : Option Kind) (value : Phrase (.expr .comparison)) :
      Phrase .statement
  | function (name : String) (parameters : Phrase (.list .parameter)) (result : Option Kind)
      (body : Phrase .statements) : Phrase .statement
  | branch (condition : Phrase (.expr .comparison)) (ifTrue : Phrase .statements) :
      Phrase .statement
  | branchElse (condition : Phrase (.expr .comparison)) (ifTrue ifFalse : Phrase .statements) :
      Phrase .statement
  | loop (condition : Phrase (.expr .comparison)) (body : Phrase .statements) : Phrase .statement
  | print (value : Phrase (.expr .comparison)) : Phrase .statement
  | ret (value : Phrase (.expr .comparison)) : Phrase .statement
  | assign (name : String) (value : Phrase (.expr .comparison)) : Phrase .statement
  | eval (value : Phrase (.expr .comparison)) : Phrase .statement
  | noStatements : Phrase .statements
  | statements (first : Phrase .statement) (rest : Phrase .statements) : Phrase .statements

/-- Tokens in braces. -/
def braced (tokens : List Token) : List Token := .curlyOpen :: (tokens ++ [.curlyClose])

/-- The tokens of an optional kind. -/
def kindTokens (kind : Option Kind) : List Token := kind.toList.map Kind.token

namespace Phrase

/-- The tokens that are derived. -/
@[simp]
def tokens : {category : Category} → Phrase category → List Token
  | _, int value => [.int value]
  | _, float value => [.float value]
  | _, call callee arguments =>
    .ident callee :: .parenOpen :: (arguments.tokens ++ [.parenClose])
  | _, var name => [.ident name]
  | _, group inner => .parenOpen :: (inner.tokens ++ [.parenClose])
  | _, unary signs inner => List.replicate signs .minus ++ inner.tokens
  | _, chain first rest => first.tokens ++ rest.tokens
  | _, noLinks => []
  | _, link op _ operand rest => op.token :: (operand.tokens ++ rest.tokens)
  | _, sum inner => inner.tokens
  | _, compare left op right => left.tokens ++ op.token :: right.tokens
  | _, argument value => value.tokens
  | _, parameter name kind => [.ident name, kind.token]
  | _, noEntries => []
  | _, entries first others => first.tokens ++ others.tokens
  | _, noOthers => []
  | _, trailing => [.comma]
  | _, other first others => .comma :: (first.tokens ++ others.tokens)
  | _, declare name kind => [.kwVar, .ident name, kind.token, .semicolon]
  | _, define name kind value =>
    .kwVar :: .ident name :: (kindTokens kind ++ .assign :: (value.tokens ++ [.semicolon]))
  | _, function name parameters result body =>
    .kwFunc :: .ident name :: .parenOpen ::
      (parameters.tokens ++ .parenClose :: (kindTokens result ++ braced body.tokens))
  | _, branch condition ifTrue => .kwIf :: (condition.tokens ++ braced ifTrue.tokens)
  | _, branchElse condition ifTrue ifFalse =>
    .kwIf :: (condition.tokens ++ (braced ifTrue.tokens ++ .kwElse :: braced ifFalse.tokens))
  | _, loop condition body => .kwWhile :: (condition.tokens ++ braced body.tokens)
  | _, print value => .kwPrint :: (value.tokens ++ [.semicolon])
  | _, ret value => .kwReturn :: (value.tokens ++ [.semicolon])
  | _, assign name value => .ident name :: .assign :: (value.tokens ++ [.semicolon])
  | _, eval value => value.tokens ++ [.semicolon]
  | _, noStatements => []
  | _, statements first rest => first.tokens ++ rest.tokens

/-- The tree of a derivation, with empty spans. The operators of a chain are applied from the left
to the right. -/
@[simp]
def tree : {category : Category} → Phrase category → category.Tree
  | _, int value => Expr.int value {}
  | _, float value => Expr.float value {}
  | _, call callee arguments => Expr.call callee arguments.tree {}
  | _, var name => Expr.var name {}
  | _, group inner => inner.tree
  | _, unary signs inner => Nat.repeat (Expr.neg · {}) signs inner.tree
  | _, chain first rest =>
    List.foldl (fun left link => Expr.binary link.1 left link.2 {}) first.tree rest.tree
  | _, noLinks => ([] : List (Operator × Expr))
  | _, link op _ operand rest =>
    ((.arithmetic op, operand.tree) :: rest.tree : List (Operator × Expr))
  | _, sum inner => inner.tree
  | _, compare left op right => Expr.binary (.compare op) left.tree right.tree {}
  | _, argument value => value.tree
  | _, parameter name kind => (name, kind)
  | .list entry, noEntries => ([] : List entry.Tree)
  | .list entry, entries first others => (first.tree :: others.tree : List entry.Tree)
  | .others entry, noOthers => ([] : List entry.Tree)
  | .others entry, trailing => ([] : List entry.Tree)
  | .others entry, other first others => (first.tree :: others.tree : List entry.Tree)
  | _, declare name kind => Stmt.declare ⟨name, {}⟩ kind {}
  | _, define name kind value => Stmt.define ⟨name, {}⟩ kind value.tree {}
  | _, function name parameters result body =>
    Stmt.function ⟨name, {}⟩ parameters.tree result body.tree {}
  | _, branch condition ifTrue => Stmt.ifElse condition.tree ifTrue.tree [] {}
  | _, branchElse condition ifTrue ifFalse =>
    Stmt.ifElse condition.tree ifTrue.tree ifFalse.tree {}
  | _, loop condition body => Stmt.loop condition.tree body.tree {}
  | _, print value => Stmt.print value.tree {}
  | _, ret value => Stmt.ret value.tree {}
  | _, assign name value => Stmt.assign ⟨name, {}⟩ value.tree {}
  | _, eval value => Stmt.eval value.tree {}
  | _, noStatements => ([] : List Stmt)
  | _, statements first rest => (first.tree :: rest.tree : List Stmt)

end Phrase

end Source

end Wabbit
