import Wabbit.Ast.Printer
import Wabbit.Proofs.Printing.Derivation
import Wabbit.Proofs.Printing.Lexing

/-!
The listing of a typed program writes down the tokens of its derivation.
-/

namespace Wabbit

namespace Token

/-- The text writes down the tokens in front of whatever other tokens are written down; unless it is
free, what follows must not be a part of its last token. -/
def Spells (free : Bool) (text : String) (tokens : List Token) : Prop :=
  ∀ (chars : List Char) (more : List Token), free = true ∨ Bounded chars → Writes chars more →
    Writes (text.toList ++ chars) (tokens ++ more)

/-- Whether a text begins with a character that is no part of a token before it. -/
def isParting (text : String) : Bool := text.toList.head?.any isBoundary

namespace Spells

variable {free free' : Bool} {text text' : String} {tokens tokens' : List Token}

theorem token (token : Token) : Spells token.isOpen token.text [token] :=
  fun _ _ parted writes => .token parted writes

theorem blanks (all : text.toList.all Text.isBlank = true) : Spells true text [] := by
  intro chars more _ writes
  have blank : ∀ c ∈ text.toList, Text.isBlank c = true := List.all_eq_true.mp all
  generalize text.toList = front at blank
  induction front with
  | nil => exact writes
  | cons c front ih =>
    exact .blank (blank c (by simp)) (ih fun d member => blank d (by simp [member]))

theorem append (first : Spells free text tokens) (second : Spells free' text' tokens')
    (parted : free = true ∨ isParting text' = true) :
    Spells free' (text ++ text') (tokens ++ tokens') := by
  intro chars more parted' writes
  rw [String.toList_append, List.append_assoc, List.append_assoc]
  refine first _ _ ?_ (second chars more parted' writes)
  refine parted.imp_right fun parting => ?_
  unfold isParting at parting
  cases parts : text'.toList with
  | nil => simp [parts] at parting
  | cons c rest =>
    rintro _ ⟨⟩
    simpa [parts] using parting

theorem weaken (spells : Spells free text tokens) : Spells false text tokens := by
  intro chars more parted writes
  exact spells chars more (.inr (by simpa using parted)) writes

theorem blank : Spells true " " [] := blanks (by decide)

/-- A text that is followed by a blank. -/
theorem space (spells : Spells free text tokens) : Spells true (text ++ " ") tokens := by
  have spaced := spells.append blank (.inr (by decide))
  rwa [List.append_nil] at spaced

/-- A token between blanks. -/
theorem inner (t : Token) : Spells true (" " ++ t.text ++ " ") [t] :=
  (blank.append (token t) (.inl rfl)).space

/-- A text that is followed by a semicolon. -/
theorem terminate (spells : Spells free text tokens) :
    Spells true (text ++ ";") (tokens ++ [.semicolon]) :=
  spells.append (token .semicolon) (.inr (by decide))

end Spells

/-- Tokens with commas between them. -/
def commas : List (List Token) → List Token
  | [] => []
  | first :: rest => first ++ rest.flatMap (.comma :: ·)

theorem intercalate_cons (separator first second : String) (rest : List String) :
    separator.intercalate (first :: second :: rest) =
      first ++ separator ++ separator.intercalate (second :: rest) := by
  apply String.toList_inj.mp
  simp [List.intercalate]

/-- Texts with commas and blanks between them. -/
theorem Spells.intercalate {texts : List String} {tokens : List (List Token)}
    (each : List.Forall₂ (Spells false) texts tokens) :
    Spells false (", ".intercalate texts) (commas tokens) := by
  have comma : Spells true ", " [.comma] := (Spells.token .comma).space
  induction each with
  | nil => exact (Spells.blanks (by decide)).weaken
  | cons first rest ih =>
    cases rest with
    | nil => simpa [commas, String.intercalate_singleton] using first
    | cons second rest =>
      rw [intercalate_cons]
      have joined := (first.append comma (.inr (by decide))).append ih (.inl rfl)
      simpa [commas] using joined

end Token

namespace Ast

open Token Source

variable {free : Bool}

private theorem tokens_printedOthers (arguments : List (Expr Name True)) :
    (Expr.printedOthers arguments).tokens =
      (arguments.map fun e => e.printed.whole.tokens).flatMap (.comma :: ·) := by
  induction arguments with
  | nil => rfl
  | cons e rest ih => simp [Expr.printedOthers, ih]

private theorem tokens_printedList (arguments : List (Expr Name True)) :
    (Expr.printedList arguments).tokens = commas (arguments.map fun e => e.printed.whole.tokens) := by
  cases arguments with
  | nil => rfl
  | cons e rest => simp [Expr.printedList, tokens_printedOthers, commas]

private theorem tokens_otherParameters (parameters : List Name) :
    (otherParameters parameters).tokens =
      (parameters.map fun p => [Token.ident p.text, p.kind.token]).flatMap (.comma :: ·) := by
  induction parameters with
  | nil => rfl
  | cons p rest ih => simp [otherParameters, ih]

private theorem tokens_parameterList (parameters : List Name) :
    (parameterList parameters).tokens =
      commas (parameters.map fun p => [Token.ident p.text, p.kind.token]) := by
  cases parameters with
  | nil => rfl
  | cons p rest => simp [parameterList, tokens_otherParameters, commas]

theorem display_eq_text (name : Name) : Named.display name = name.text := rfl

theorem spells_kind (kind : Kind) : Spells false kind.name [kind.token] := by
  cases kind with
  | integer => exact Spells.token .kwInt
  | float => exact Spells.token .kwFloat

namespace Expr

/-- An operator inside another one is written in parentheses. -/
theorem spells_operand {e : Expr Name True} (spells : Spells false e.text e.printed.whole.tokens) :
    Spells false (e.parenthesize e.text) e.printed.operand.tokens := by
  have grouped : Spells true ("(" ++ e.text ++ ")")
      (.parenOpen :: (e.printed.whole.tokens ++ [.parenClose])) :=
    ((Spells.token .parenOpen).append spells (.inl rfl)).append (Spells.token .parenClose)
      (.inr (by decide))
  cases e with
  | arith op left right | compare op left right => exact grouped.weaken
  | _ => simpa [printed, parenthesize, isBinary] using spells

/-- Two operands with an operator between them. -/
theorem spells_binary {left right sign : String} {before behind : List Token} {token : Token}
    (first : Spells false left before) (operator : Spells free sign [token])
    (second : Spells false right behind) :
    Spells false (left ++ " " ++ sign ++ " " ++ right) (before ++ token :: behind) := by
  have joined := (first.space.append operator (.inl rfl)).space.append second (.inl rfl)
  rwa [List.append_assoc] at joined

private theorem spells_arithmetic (op : Arithmetic) : Spells op.token.isOpen op.sign [op.token] := by
  cases op <;> exact Spells.token _

private theorem spells_comparison (op : Comparison) : Spells op.token.isOpen op.sign [op.token] := by
  cases op <;> exact Spells.token _

mutual

/-- The text of an expression. -/
theorem spells_text (e : Expr Name True) : Spells false e.text e.printed.whole.tokens := by
  cases e with
  | int value => exact Spells.token (.int value)
  | float value => exact Spells.token (.float value)
  | name n => exact Spells.token (.ident n.text)
  | arith op left right =>
    have joined := spells_binary (spells_operand (spells_text left)) (spells_arithmetic op)
      (spells_operand (spells_text right))
    simpa [printed, text] using joined
  | compare op left right =>
    have joined := spells_binary (spells_operand (spells_text left)) (spells_comparison op)
      (spells_operand (spells_text right))
    simpa [printed, text] using joined
  | call callee arguments =>
    have inside := Spells.intercalate (spells_texts arguments)
    have opened := (Spells.token (.ident callee.text)).append (Spells.token .parenOpen)
      (.inr (by decide))
    have joined := (opened.append inside (.inl rfl)).append (Spells.token .parenClose)
      (.inr (by decide))
    simpa [printed, text, Token.text, display_eq_text, tokens_printedList] using joined.weaken
  | neg allowed inner =>
    have joined := (Spells.token .minus).append (spells_operand (spells_text inner)) (.inl rfl)
    simpa [printed, text, Token.text] using joined

theorem spells_texts (es : List (Expr Name True)) :
    List.Forall₂ (Spells false) (texts es) (es.map fun e => e.printed.whole.tokens) := by
  cases es with
  | nil => exact .nil
  | cons e rest => exact .cons (spells_text e) (spells_texts rest)

end

end Expr

theorem spells_indent (depth : Nat) : Spells true (Listing.indent depth) [] := by
  apply Spells.blanks
  simp only [Listing.indent, String.toList_ofList, List.all_eq_true]
  intro c member
  rw [List.eq_of_mem_replicate member]
  decide

theorem spells_newline : Spells true "\n" [] := Spells.blanks (by decide)

theorem join_cons (first : String) (rest : List String) :
    String.join (first :: rest) = first ++ String.join rest := by
  apply String.toList_inj.mp
  simp

private theorem spells_lines {texts : List String} {tokens : List (List Token)}
    (each : List.Forall₂ (Spells true) texts tokens) :
    Spells true (String.join (texts.map ("\n" ++ ·))) tokens.flatten := by
  induction each with
  | nil => exact Spells.blanks (by decide)
  | cons first rest ih =>
    rw [List.map_cons, join_cons, List.flatten_cons]
    exact (spells_newline.append first (.inl rfl)).append ih (.inl rfl)

/-- Lines in braces. -/
theorem spells_body (depth : Nat) {texts : List String} {tokens : List (List Token)}
    (each : List.Forall₂ (Spells true) texts tokens) :
    Spells true (Listing.body depth texts) (braced tokens.flatten) := by
  have joined := ((((Spells.token .curlyOpen).append (spells_lines each) (.inl rfl)).append
    spells_newline (.inl rfl)).append (spells_indent depth) (.inl rfl)).append
    (Spells.token .curlyClose) (.inl rfl)
  simpa [Listing.body, braced, Token.text, isOpen] using joined

namespace Stmt

theorem tokens_printedAll (stmts : List (Stmt Name True True)) :
    (printedAll stmts).tokens = (stmts.map fun s => s.printed.tokens).flatten := by
  induction stmts with
  | nil => rfl
  | cons s rest ih => simp [printedAll, ih]

private theorem spells_parameters (parameters : List Name) :
    Spells false (", ".intercalate (parameters.map fun p => p.text ++ " " ++ p.kind.name))
      (parameterList parameters).tokens := by
  rw [tokens_parameterList]
  apply Spells.intercalate
  induction parameters with
  | nil => exact .nil
  | cons p rest ih =>
    exact .cons ((Spells.token (.ident p.text)).space.append (spells_kind p.kind) (.inl rfl)) ih

mutual

/-- The text of a statement. -/
theorem spells_line (depth : Nat) (s : Stmt Name True True) :
    Spells true (s.line depth) s.printed.tokens := by
  cases s with
  | declare name =>
    have joined := ((Spells.token .kwVar).space.append (Spells.token (.ident name.text))
      (.inl rfl)).space.append (spells_kind name.kind) (.inl rfl)
    exact joined.terminate
  | define allowed name value =>
    have equals : Spells true " = " [.assign] := .inner .assign
    have target := (Spells.token .kwVar).space.append (Spells.token (.ident name.text)) (.inl rfl)
    have joined := (target.append equals (.inr (by decide))).append value.spells_text (.inl rfl)
    exact joined.terminate
  | assign name value =>
    have equals : Spells true " = " [.assign] := .inner .assign
    have joined := ((Spells.token (.ident name.text)).append equals (.inr (by decide))).append
      value.spells_text (.inl rfl)
    exact joined.terminate
  | print value =>
    have joined := (Spells.token .kwPrint).space.append value.spells_text (.inl rfl)
    simpa [printed, line, Token.text] using joined.terminate
  | ifElse condition ifTrue ifFalse =>
    have tested := ((Spells.token .kwIf).space.append condition.toExpr.spells_text
      (.inl rfl)).space
    have first := tested.append (spells_body depth (spells_allLines (depth + 1) ifTrue)) (.inl rfl)
    rw [← tokens_printedAll] at first
    cases ifFalse with
    | nil => simpa [printed, line, Listing.branch, lines, Token.text] using first
    | cons s rest =>
      have otherwise : Spells true " else " [.kwElse] := .inner .kwElse
      have second := spells_body depth (spells_allLines (depth + 1) (s :: rest))
      rw [← tokens_printedAll] at second
      have joined := first.append (otherwise.append second (.inl rfl)) (.inl rfl)
      simpa [printed, printedAll, line, Listing.branch, lines, Token.text] using joined
  | loop condition body =>
    have tested := ((Spells.token .kwWhile).space.append condition.toExpr.spells_text
      (.inl rfl)).space
    have joined := tested.append (spells_body depth (spells_allLines (depth + 1) body)) (.inl rfl)
    simpa [printed, line, Listing.loop, tokens_printedAll, Token.text] using joined
  | function name parameters body =>
    have closing : Spells true ") " [.parenClose] := (Spells.token .parenClose).space
    have opened := ((Spells.token .kwFunc).space.append (Spells.token (.ident name.text))
      (.inl rfl)).append (Spells.token .parenOpen) (.inr (by decide))
    have header := ((opened.append (spells_parameters parameters) (.inl rfl)).append closing
      (.inr (by decide))).append (spells_kind name.kind) (.inl rfl)
    have joined := header.space.append (spells_body depth (spells_allLines (depth + 1) body))
      (.inl rfl)
    rw [← tokens_printedAll] at joined
    simpa [printed, line, Listing.function, Token.text, kindTokens, Function.comp_def, Named.text,
      Named.kind] using joined
  | ret value =>
    have joined := (Spells.token .kwReturn).space.append value.spells_text (.inl rfl)
    simpa [printed, line, Token.text] using joined.terminate
  | eval value => exact value.spells_text.terminate

theorem spells_allLines (depth : Nat) (stmts : List (Stmt Name True True)) :
    List.Forall₂ (Spells true) (lines depth stmts) (stmts.map fun s => s.printed.tokens) := by
  cases stmts with
  | nil => exact .nil
  | cons s rest =>
    exact .cons ((spells_indent depth).append (spells_line depth s) (.inl rfl))
      (spells_allLines depth rest)

end

end Stmt

/-- The listing of a program. -/
theorem Script.writes_text (script : Parsed) :
    Writes script.text.toList (Stmt.printedAll script).tokens := by
  have all {texts : List String} {tokens : List (List Token)}
      (each : List.Forall₂ (Spells true) texts tokens) :
      Spells true (Listing.program texts) tokens.flatten := by
    induction each with
    | nil => exact Spells.blanks (by decide)
    | cons first rest ih =>
      rw [Listing.program, List.map_cons, join_cons, List.flatten_cons]
      have line := first.append spells_newline (.inl rfl)
      rw [List.append_nil] at line
      exact line.append ih (.inl rfl)
  have spells := all (Stmt.spells_allLines 0 script)
  have writes := spells [] [] (.inl rfl) .nil
  rwa [List.append_nil, List.append_nil, ← Stmt.tokens_printedAll] at writes

end Ast

end Wabbit
