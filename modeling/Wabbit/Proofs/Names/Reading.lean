import Wabbit.Source.Reader
import Wabbit.Proofs.Names.Fresh
import Wabbit.Proofs.Parsing.Yields

/-!
The names of a source text. Whatever a text declares starts with a letter or an underscore, because
all its names are words.
-/

namespace Wabbit

open Parsing

namespace Token

/-- Whether a token is no name, or one that starts without a dot. -/
def isNamed : Token → Bool
  | ident name => isUndotted name
  | _ => true

private theorem isNamed_ofWord {word : String} (undotted : isUndotted word = true) :
    (ofWord word).isNamed = true := by
  unfold ofWord
  cases found : keywords.lookup word with
  | none => exact undotted
  | some token =>
    obtain ⟨before, after, parts, -⟩ := List.lookup_eq_some_iff.mp found
    have keyword : (word, token) ∈ keywords := by simp [parts]
    have all : ∀ entry ∈ keywords, entry.2.isNamed = true := by decide
    exact all _ keyword

namespace Lexer

private theorem word_yields (good : Char → Prop) :
    Yields good (fun token => token.isNamed = true) word := by
  have chars : Yields good (fun chars => isUndotted (String.ofList chars) = true)
      (Parser.seq List.cons (Parser.satisfy startsWord) (Parser.many (.satisfy continuesWord))) := by
    refine (Yields.satisfy startsWord).seq (Yields.satisfy continuesWord).many ?_
    intro c rest starts _
    have undotted : c ≠ '.' := by
      rintro rfl
      revert starts
      decide
    simp [isUndotted, undotted]
  exact chars.map fun chars undotted => isNamed_ofWord undotted

private theorem sign_yields (good : Char → Prop) :
    Yields good (fun token => token.isNamed = true) sign := by
  refine Yields.choice fun p member => ?_
  obtain ⟨⟨text, token⟩, known, rfl⟩ := List.mem_map.mp member
  refine (Yields.exactly text.toList).map fun _ _ => ?_
  have all : ∀ sign ∈ signs, sign.2.isNamed = true := by decide
  exact all _ known

theorem digit_yields (good : Char → Prop) : Yields good (fun _ => True) digit :=
  (Yields.satisfy Char.isDigit).imp fun _ _ => trivial

theorem whole_yields (good : Char → Prop) : Yields good (fun _ => True) whole := by
  refine Yields.either ?_ ?_
  · exact (Yields.satisfy _).seq (digit_yields good).many fun _ _ _ _ => trivial
  · exact (Yields.just '0').map fun _ _ => trivial

private theorem token_yields (good : Char → Prop) :
    Yields good (fun token => token.isNamed = true) token := by
  have numbers : Yields good (fun token => token.isNamed = true) (Parser.either float integer) := by
    refine Yields.either ?_ ?_
    · have front := (whole_yields good).skipRight (Yields.just '.')
      have digits := front.both (digit_yields good).manyOnce.optional
      unfold float
      refine digits.map fun _ _ => ?_
      rfl
    · refine (whole_yields good).refine fun digits token _ read => ?_
      dsimp only at read
      split at read
      · cases read
        rfl
      · cases read
  exact (numbers.either (word_yields good)).either (sign_yields good)

theorem spaced_yields {α : Type} {good : Char → Prop} {holds : α → Prop} {p : Parser Char α}
    (yields : Yields good holds p) : Yields good holds (spaced p) := by
  have comment : Yields good (fun _ => True) comment := by
    have line : Yields good (fun _ => True) (Parser.many (Parser.satisfy fun c => c ≠ '\n')) :=
      (Yields.satisfy _).many.imp fun _ _ => trivial
    exact ((Yields.exactly ['/', '/']).skipRight line).padded Text.isBlank
  exact (comment.many.between comment.many yields).padded _

/-- All names among the tokens of a text start without a dot. -/
theorem tokens_yields (good : Char → Prop) :
    Yields good (fun tokens => ∀ token ∈ tokens, token.1.isNamed = true) tokens := by
  have each : Yields good (fun token : Token × Span => token.1.isNamed = true)
      (Parser.spanned (token.map Prod.mk)) :=
    ((token_yields good).map fun _ named _ => named).spanned
  exact (spaced_yields (spaced_yields each).many).skipRight Yields.finished

end Lexer

end Token

namespace Source

mutual

/-- The variables and parameters that a statement declares, at whatever depth. -/
def Stmt.declared : Stmt → List String
  | .declare name _ _ => [name.name]
  | .define name _ _ _ => [name.name]
  | .ifElse _ ifTrue ifFalse _ => Stmt.allDeclared ifTrue ++ Stmt.allDeclared ifFalse
  | .loop _ body _ => Stmt.allDeclared body
  | .function _ parameters _ body _ => parameters.map Prod.fst ++ Stmt.allDeclared body
  | _ => []

def Stmt.allDeclared : List Stmt → List String
  | [] => []
  | s :: rest => s.declared ++ Stmt.allDeclared rest

end

theorem Stmt.mem_allDeclared {name : String} {stmts : List Stmt} :
    name ∈ allDeclared stmts ↔ ∃ s ∈ stmts, name ∈ s.declared := by
  induction stmts with
  | nil => simp [allDeclared]
  | cons s rest ih => simp [allDeclared, ih]

/-- Whether a statement declares only names that start without a dot. -/
def Stmt.IsNamed (s : Stmt) : Prop := ∀ name ∈ s.declared, isUndotted name = true

namespace Grammar

/-- What all tokens of a text satisfy. -/
abbrev Named (token : Token) : Prop := token.isNamed = true

theorem name_yields : Yields Named (fun name => isUndotted name = true) name := by
  refine Yields.item fun token name named read => ?_
  cases token <;> simp only [reduceCtorEq, Option.some.injEq] at read
  rw [← read]
  exact named

theorem ident_yields : Yields Named (fun ident => isUndotted ident.name = true) ident :=
  (name_yields.map fun _ undotted _ => undotted).spanned

theorem kind_yields : Yields Named (fun _ => True) kind := by
  refine Yields.choice fun p member => ?_
  simp only [List.mem_cons, List.not_mem_nil, or_false] at member
  rcases member with rfl | rfl
  · exact (Yields.just _).map fun _ _ => trivial
  · exact (Yields.just _).map fun _ _ => trivial

private theorem operator_yields (token : Token) (op : Operator) :
    Yields Named (fun _ => True) (operator token op) :=
  (Yields.just token).map fun _ _ => trivial

private theorem chain_yields {op : Rule Operator} {operand : Rule Expr}
    (first : Yields Named (fun _ => True) op) (second : Yields Named (fun _ => True) operand) :
    Yields Named (fun _ => True) (chain op operand) :=
  second.seq (first.both second).many fun _ _ _ _ => trivial

theorem parenthesized_yields {α : Type} {holds : α → Prop} {p : Rule α}
    (yields : Yields Named holds p) : Yields Named holds (parenthesized p) :=
  (Yields.just _).between (Yields.just _) yields

private theorem comparison_yields {expression : Rule Expr}
    (inner : Yields Named (fun _ => True) expression) :
    Yields Named (fun _ => True) (comparison expression) := by
  have value : Yields Named (fun _ => True) value := Yields.item fun _ _ _ _ => trivial
  have call : Yields Named (fun _ => True) (call expression) :=
    name_yields.seq (parenthesized_yields (Yields.separated (Yields.just _) inner))
      fun _ _ _ _ => trivial
  have variable' : Yields Named (fun _ => True) (name.map Expr.var) :=
    name_yields.map fun _ _ => trivial
  have atom : Yields Named (fun _ => True) (atom expression) := by
    refine Yields.either (Yields.spanned ?_) (parenthesized_yields inner)
    exact ((value.either call).either variable').imp fun _ _ _ => trivial
  have unary : Yields Named (fun _ => True) (unary expression) := by
    have minus : Yields Named (fun _ => True)
        (Parser.spanned ((Parser.just Token.minus).map fun _ span => span)) :=
      ((Yields.just _).map fun _ _ _ => trivial).spanned
    exact minus.many.seq atom fun _ _ _ _ => trivial
  have product : Yields Named (fun _ => True) (product expression) :=
    chain_yields ((operator_yields _ _).either (operator_yields _ _)) unary
  have sum : Yields Named (fun _ => True) (sum expression) :=
    chain_yields ((operator_yields _ _).either (operator_yields _ _)) product
  have comparator : Yields Named (fun _ => True) comparator := by
    refine Yields.choice fun p member => ?_
    simp only [List.mem_cons, List.not_mem_nil, or_false] at member
    rcases member with rfl | rfl | rfl | rfl | rfl | rfl <;> exact operator_yields _ _
  exact sum.seq (comparator.both sum).optional fun _ _ _ _ => trivial

private theorem expression_yields (depth : Nat) : Yields Named (fun _ => True) (expression depth) := by
  induction depth with
  | zero => exact fun cursor all s done => by cases done
  | succ depth ih => exact comparison_yields ih

theorem terminated_yields {α : Type} {holds : α → Prop} {p : Rule α} (yields : Yields Named holds p) :
    Yields Named holds (terminated p) :=
  yields.skipRight (Yields.just _)

theorem headed_yields {α : Type} {holds : α → Prop} {p : Rule α} (keyword : Token)
    (yields : Yields Named holds p) : Yields Named holds (headed keyword p) :=
  (Yields.just keyword).skipLeft yields

/-- What a statement declares inside a block starts without a dot. -/
theorem block_yields {statement : Rule Stmt} (inner : Yields Named Stmt.IsNamed statement) :
    Yields Named (fun body => ∀ name ∈ Stmt.allDeclared body, isUndotted name = true)
      (block statement) := by
  refine Yields.recovering ((Yields.just _).between (Yields.just _) (inner.many.imp ?_)) _ nofun
  intro body each name member
  obtain ⟨s, inside, declared⟩ := Stmt.mem_allDeclared.mp member
  exact each s inside name declared

section Statement

variable {expression : Rule Expr} {statement : Rule Stmt}

private theorem declaration_yields (value : Yields Named (fun _ => True) expression) :
    Yields Named (fun make => ∀ span, (make span).IsNamed) (declaration expression) := by
  have parts := ((headed_yields .kwVar ident_yields).both kind_yields.optional).both
    (headed_yields .assign value).optional
  refine (terminated_yields parts).refine ?_
  rintro ⟨⟨ident, kind⟩, value⟩ make ⟨⟨undotted, -⟩, -⟩ read span
  have single (name : String) (member : name ∈ [ident.name]) : isUndotted name = true := by
    rw [List.mem_singleton.mp member]
    exact undotted
  cases kind <;> cases value <;> cases read <;> exact single

private theorem function_yields (inner : Yields Named Stmt.IsNamed statement) :
    Yields Named (fun make => ∀ span, (make span).IsNamed) (function statement) := by
  have parameter := name_yields.both kind_yields
  have parameters : Yields Named _ parameters :=
    parenthesized_yields (Yields.separated (Yields.just _) parameter)
  have header := ((headed_yields .kwFunc ident_yields).both parameters).both kind_yields.optional
  refine header.seq (block_yields inner) ?_
  rintro ⟨⟨ident, parameters⟩, result⟩ body ⟨⟨-, named⟩, -⟩ inside span name member
  simp only [Stmt.declared, List.mem_append, List.mem_map] at member
  rcases member with ⟨parameter, own, rfl⟩ | member
  · exact (named parameter own).1
  · exact inside name member

private theorem ifElse_yields (value : Yields Named (fun _ => True) expression)
    (inner : Yields Named Stmt.IsNamed statement) :
    Yields Named (fun make => ∀ span, (make span).IsNamed) (ifElse expression statement) := by
  have front := (headed_yields .kwIf value).both (block_yields inner)
  refine front.seq (headed_yields .kwElse (block_yields inner)).optional ?_
  rintro ⟨condition, ifTrue⟩ ifFalse ⟨-, first⟩ second span name member
  simp only [Stmt.declared, List.mem_append] at member
  rcases member with member | member
  · exact first name member
  · cases ifFalse with
    | none => cases member
    | some ifFalse => exact second ifFalse rfl name member

private theorem loop_yields (value : Yields Named (fun _ => True) expression)
    (inner : Yields Named Stmt.IsNamed statement) :
    Yields Named (fun make => ∀ span, (make span).IsNamed) (loop expression statement) :=
  (headed_yields .kwWhile value).seq (block_yields inner) fun _ _ _ inside _ => inside

end Statement

private theorem statement_yields {expression : Rule Expr}
    (value : Yields Named (fun _ => True) expression)
    (depth : Nat) : Yields Named Stmt.IsNamed (statement expression depth) := by
  induction depth with
  | zero => exact fun cursor all s done => by cases done
  | succ depth ih =>
    have simple {make : Expr → Span → Stmt} (keyword : Token)
        (none : ∀ e span, (make e span).declared = []) :
        Yields Named (fun make => ∀ span, (make span).IsNamed)
          ((terminated (headed keyword expression)).map make) :=
      (terminated_yields (headed_yields keyword value)).map fun e _ span => by
        simp [Stmt.IsNamed, none]
    refine Yields.spanned (Yields.choice fun p member => ?_)
    simp only [List.mem_cons, List.not_mem_nil, or_false] at member
    rcases member with rfl | rfl | rfl | rfl | rfl | rfl | rfl | rfl
    · exact declaration_yields value
    · exact function_yields ih
    · exact ifElse_yields value ih
    · exact loop_yields value ih
    · exact simple .kwPrint fun _ _ => rfl
    · exact simple .kwReturn fun _ _ => rfl
    · have target := ident_yields.skipRight (Yields.just Token.assign)
      exact terminated_yields (target.seq value fun _ _ _ _ _ => nofun)
    · exact (terminated_yields value).map fun _ _ _ => nofun

end Grammar

theorem outcome?_yields {σ α : Type} {good : σ → Prop} {holds : α → Prop} {p : Parser σ α}
    {cursor : Cursor σ} {a : α} (yields : Yields good holds p) (all : cursor.All good)
    (read : outcome? (p cursor) = some a) : holds a := by
  cases answer : p cursor with
  | done s =>
    rw [answer] at read
    cases read
    exact (yields cursor all s answer).1
  | failed recorded fault =>
    rw [answer] at read
    cases read

private theorem lex_named {source : String} {tokens : List (Token × Span)}
    (lexed : outcome? (lex source) = some tokens) : ∀ token ∈ tokens, token.1.isNamed = true := by
  unfold lex at lexed
  exact outcome?_yields (Token.Lexer.tokens_yields fun _ => True) (fun _ _ => trivial) lexed

private theorem parse_declared {source : String} {tokens : List (Token × Span)} {stmts : List Stmt}
    (named : ∀ token ∈ tokens, token.1.isNamed = true)
    (parsed : outcome? (parse source tokens) = some stmts) :
    ∀ name ∈ Stmt.allDeclared stmts, isUndotted name = true := by
  unfold parse Grammar.program at parsed
  have expression := Grammar.expression_yields (tokens.length + 1)
  have statements := (Grammar.statement_yields expression (tokens.length + 1)).many
  have start : (Cursor.ofList tokens (endOf source)).All Grammar.Named := named
  have each := outcome?_yields (statements.skipRight Yields.finished) start parsed
  intro name member
  obtain ⟨s, inside, declared⟩ := Stmt.mem_allDeclared.mp member
  exact each s inside name declared

/-- All that a text declares starts without a dot. -/
theorem read_declared {source : String} {stmts : List Stmt} (done : read source = .ok stmts) :
    ∀ name ∈ Stmt.allDeclared stmts, isUndotted name = true := by
  unfold read at done
  dsimp only at done
  split at done
  · cases done
  · rename_i tokens lexed
    split at done
    · rename_i parsed _
      cases done
      exact parse_declared (lex_named lexed) parsed
    · cases done

end Source

end Wabbit
