import Wabbit.Source
import Wabbit.Token
import Wabbit.Parsing.Recovery

/-!
The grammar of the language. An expression inside an expression and a statement inside a statement
stand behind a token of the outer one, so that a nesting is never deeper than the number of tokens;
the two recursive parsers count it down.
-/

namespace Wabbit.Source.Grammar

open Parsing

/-- A reader of tokens. -/
abbrev Rule (α : Type) := Parser Token α

def name : Rule String :=
  .item fun
    | .ident name => some name
    | _ => none

def ident : Rule Ident := (name.map Ident.mk).spanned

def kind : Rule Kind :=
  .choice [(Parser.just .kwInt).map fun _ => .integer, (Parser.just .kwFloat).map fun _ => .float]

def value : Rule (Span → Expr) :=
  .item fun
    | .int value => some (.int value)
    | .float value => some (.float value)
    | _ => none

/-- The expression that joins two operands. -/
def join (left : Expr) (rest : Operator × Expr) : Expr :=
  .binary rest.1 left rest.2 (left.span.union rest.2.span)

/-- A sign that stands for an operator. -/
def operator (token : Token) (op : Operator) : Rule Operator := (Parser.just token).map fun _ => op

/-- Operands joined by operators of one rank, from the left to the right. -/
def chain (op : Rule Operator) (operand : Rule Expr) : Rule Expr :=
  .seq (List.foldl join) operand (.many (.both op operand))

def parenthesized {α : Type} (p : Rule α) : Rule α :=
  .between (.just .parenOpen) (.just .parenClose) p

/-- A function's name and its arguments. -/
def call (expression : Rule Expr) : Rule (Span → Expr) :=
  .seq Expr.call name (parenthesized (.separated (.just .comma) expression))

/-- A number, call, variable or parenthesized expression. -/
def atom (expression : Rule Expr) : Rule Expr :=
  .either (Parser.spanned (.either (.either value (call expression)) (name.map Expr.var)))
    (parenthesized expression)

/-- An atom with any number of minus signs in front of it. -/
def unary (expression : Rule Expr) : Rule Expr :=
  .seq (fun signs inner => signs.foldr (fun sign e => .neg e (sign.union e.span)) inner)
    (.many (Parser.spanned ((Parser.just .minus).map fun _ span => span))) (atom expression)

/-- Unary expressions joined by `*` and `/`. -/
def product (expression : Rule Expr) : Rule Expr :=
  chain (.either (operator .star (.arithmetic .mul)) (operator .slash (.arithmetic .div)))
    (unary expression)

/-- Products joined by `+` and `-`. -/
def sum (expression : Rule Expr) : Rule Expr :=
  chain (.either (operator .plus (.arithmetic .add)) (operator .minus (.arithmetic .sub)))
    (product expression)

def comparator : Rule Operator :=
  .choice [operator .less (.compare .less), operator .lessEq (.compare .lessEq),
    operator .greater (.compare .greater), operator .greaterEq (.compare .greaterEq),
    operator .equal (.compare .equal), operator .notEqual (.compare .notEqual)]

/-- A sum, or two sums compared; comparisons do not chain. -/
def comparison (expression : Rule Expr) : Rule Expr :=
  .seq (fun left rest => rest.elim left (join left)) (sum expression)
    (.optional (.both comparator (sum expression)))

/-- An expression with less than `depth` expressions inside each other. -/
def expression : Nat → Rule Expr
  | 0 => fun cursor => .failed [] (cursor.unexpected [])
  | depth + 1 => fun cursor => comparison (expression depth) cursor

def terminated {α : Type} (p : Rule α) : Rule α := .skipRight p (.just .semicolon)

/-- A keyword and what follows it. -/
def headed {α : Type} (keyword : Token) (p : Rule α) : Rule α := .skipLeft (.just keyword) p

/-- The brackets of a block. -/
def braces : Brackets Token := ⟨.curlyOpen, .curlyClose, .parenOpen, .parenClose⟩

/-- Statements in braces. If they cannot be read, but the braces are closed, the block counts as
empty. -/
def block (statement : Rule Stmt) : Rule (List Stmt) :=
  .recovering braces [] (.between (.just .curlyOpen) (.just .curlyClose) (.many statement))

/-- The statement that declares a variable, which needs a kind or a value. -/
def declared (ident : Ident) (kind : Option Kind) (value : Option Expr) :
    Except Refusal (Span → Stmt) :=
  match kind, value with
  | kind, some value => .ok (.define ident kind value)
  | some kind, none => .ok (.declare ident kind)
  | none, none => .error (.bareVariable ident.name)

/-- A declaration such as `var x int = 1;`, where the kind or the value may be missing. -/
def declaration (expression : Rule Expr) : Rule (Span → Stmt) :=
  Parser.refine (fun ((ident, kind), value) => declared ident kind value)
    (terminated (.both (.both (headed .kwVar ident) (.optional kind))
      (.optional (headed .assign expression))))

def parameters : Rule (List (String × Kind)) :=
  parenthesized (.separated (.just .comma) (.both name kind))

/-- A function such as `func f(x int) int { … }`. -/
def function (statement : Rule Stmt) : Rule (Span → Stmt) :=
  .seq (fun ((ident, parameters), result) body => .function ident parameters result body)
    (.both (.both (headed .kwFunc ident) parameters) (.optional kind)) (block statement)

/-- A branch such as `if x < 1 { … } else { … }`, where the second arm may be missing. -/
def ifElse (expression : Rule Expr) (statement : Rule Stmt) : Rule (Span → Stmt) :=
  .seq (fun (condition, ifTrue) ifFalse => .ifElse condition ifTrue (ifFalse.getD []))
    (.both (headed .kwIf expression) (block statement))
    (.optional (headed .kwElse (block statement)))

/-- A loop such as `while x < 1 { … }`. -/
def loop (expression : Rule Expr) (statement : Rule Stmt) : Rule (Span → Stmt) :=
  .seq Stmt.loop (headed .kwWhile expression) (block statement)

/-- An assignment such as `x = 1;`. -/
def assign (expression : Rule Expr) : Rule (Span → Stmt) :=
  terminated (.seq Stmt.assign (.skipRight ident (.just .assign)) expression)

/-- A statement with less than `depth` statements inside each other. -/
def statement (expression : Rule Expr) : Nat → Rule Stmt
  | 0 => fun cursor => .failed [] (cursor.unexpected [])
  | depth + 1 => fun cursor =>
    let inner := statement expression depth
    Parser.spanned (.choice [
      declaration expression,
      function inner,
      ifElse expression inner,
      loop expression inner,
      (terminated (headed .kwPrint expression)).map Stmt.print,
      (terminated (headed .kwReturn expression)).map Stmt.ret,
      assign expression,
      (terminated expression).map Stmt.eval]) cursor

/-- A whole program of at most `depth` tokens. -/
def program (depth : Nat) : Rule (List Stmt) :=
  .skipRight (.many (statement (expression (depth + 1)) (depth + 1))) .finished

end Wabbit.Source.Grammar
