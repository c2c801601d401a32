import Wabbit.Proofs.Parsing.Explains
import Wabbit.Proofs.Tokens.Tiling

/-!
What is said about source texts. A text is either read without a fault, or at least one error is
told, and every error points into the text.
-/

namespace Wabbit

open Parsing

namespace Token.Lexer

variable {size : Nat}

theorem explains_whole : Explains False size whole :=
  .either ((Explains.satisfy _).seq (Explains.satisfy _).many) (Explains.just _).map

private theorem explains_float : Explains False size float := by
  unfold float
  exact ((explains_whole.skipRight (.just _)).both (Explains.satisfy _).manyOnce.optional).map

private theorem explains_word : Explains False size word :=
  ((Explains.satisfy _).seq (Explains.satisfy _).many).map

private theorem explains_sign : Explains False size sign := by
  refine .choice fun p member => ?_
  obtain ⟨sign, -, rfl⟩ := List.mem_map.mp member
  exact (Explains.exactly _).map

private theorem explains_token : Explains False size token :=
  ((explains_float.either explains_whole.refine).either explains_word).either explains_sign

private theorem explains_spaced {α : Type} {p : Parser Char α} (explains : Explains False size p) :
    Explains False size (spaced p) := by
  have comments : Explains False size (Parser.many comment) :=
    (((Explains.exactly _).skipRight (Explains.satisfy _).many).padded _).many
  exact (comments.between comments explains).padded _

/-- The lexer goes on after no fault, and its faults lie inside the text. -/
theorem explains_tokens : Explains False size tokens :=
  (explains_spaced (explains_spaced explains_token.map.spanned).many).skipRight .finished

end Token.Lexer

namespace Source

namespace Grammar

variable {size : Nat} {e : Rule Expr} {inner : Rule Stmt}

theorem explains_ident : Explains True size ident := Explains.item.map.spanned

theorem explains_kind : Explains True size kind := by
  apply Explains.choice
  simp only [List.forall_mem_cons, List.not_mem_nil, false_implies, implies_true, and_true]
  exact ⟨(Explains.just _).map, (Explains.just _).map⟩

theorem explains_operator (token : Token) (op : Operator) :
    Explains True size (operator token op) := (Explains.just _).map

private theorem explains_chain {op : Rule Operator} {operand : Rule Expr} (sign : Explains True size op)
    (explains : Explains True size operand) : Explains True size (chain op operand) :=
  explains.seq (sign.both explains).many

theorem explains_parenthesized {α : Type} {p : Rule α} (explains : Explains True size p) :
    Explains True size (parenthesized p) :=
  .between (.just _) (.just _) explains

private theorem explains_atom (explains : Explains True size e) : Explains True size (atom e) := by
  have call_explains : Explains True size (call e) :=
    Explains.item.seq (explains_parenthesized (.separated (.just _) explains))
  exact ((Explains.item.either call_explains).either Explains.item.map).spanned.either
    (explains_parenthesized explains)

private theorem explains_unary (explains : Explains True size e) : Explains True size (unary e) :=
  (Explains.just _).map.spanned.many.seq (explains_atom explains)

private theorem explains_comparator : Explains True size comparator := by
  apply Explains.choice
  simp only [List.forall_mem_cons, List.not_mem_nil, false_implies, implies_true, and_true]
  exact ⟨explains_operator _ _, explains_operator _ _, explains_operator _ _,
    explains_operator _ _, explains_operator _ _, explains_operator _ _⟩

private theorem explains_comparison (explains : Explains True size e) :
    Explains True size (comparison e) := by
  have product_explains : Explains True size (product e) :=
    explains_chain ((explains_operator _ _).either (explains_operator _ _)) (explains_unary explains)
  have sum_explains : Explains True size (sum e) :=
    explains_chain ((explains_operator _ _).either (explains_operator _ _)) product_explains
  exact sum_explains.seq (explains_comparator.both sum_explains).optional

private theorem explains_expression (depth : Nat) : Explains True size (expression depth) := by
  induction depth with
  | zero => exact fun cursor inside => .failed .nil (inside.unexpected _)
  | succ depth ih => exact explains_comparison ih

theorem explains_headed {α : Type} (keyword : Token) {p : Rule α} (explains : Explains True size p) :
    Explains True size (headed keyword p) := .skipLeft (.just _) explains

theorem explains_terminated {α : Type} {p : Rule α} (explains : Explains True size p) :
    Explains True size (terminated p) := explains.skipRight (.just _)

theorem explains_block (explains : Explains True size inner) : Explains True size (block inner) :=
  .recovering (.between (.just _) (.just _) explains.many)

private theorem explains_declaration (explains : Explains True size e) :
    Explains True size (declaration e) := by
  have kind_explains : Explains True size kind := explains_kind
  have named := (explains_headed .kwVar explains_ident).both kind_explains.optional
  exact (explains_terminated (named.both (explains_headed .assign explains).optional)).refine

private theorem explains_function (explains : Explains True size inner) :
    Explains True size (function inner) := by
  have parameters_explains : Explains True size parameters :=
    explains_parenthesized (.separated (.just _) (Explains.item.both explains_kind))
  exact (((explains_headed _ explains_ident).both parameters_explains).both
    explains_kind.optional).seq (explains_block explains)

private theorem explains_ifElse (explains : Explains True size e)
    (inner_explains : Explains True size inner) : Explains True size (ifElse e inner) :=
  ((explains_headed _ explains).both (explains_block inner_explains)).seq
    (explains_headed _ (explains_block inner_explains)).optional

private theorem explains_loop (explains : Explains True size e)
    (inner_explains : Explains True size inner) : Explains True size (loop e inner) :=
  (explains_headed _ explains).seq (explains_block inner_explains)

private theorem explains_assign (explains : Explains True size e) : Explains True size (assign e) :=
  explains_terminated ((explains_ident.skipRight (.just _)).seq explains)

private theorem explains_statement (explains : Explains True size e) (depth : Nat) :
    Explains True size (statement e depth) := by
  induction depth with
  | zero => exact fun cursor inside => .failed .nil (inside.unexpected _)
  | succ depth ih =>
    intro cursor inside
    refine Explains.spanned (Explains.choice ?_) cursor inside
    simp only [List.forall_mem_cons, List.not_mem_nil, false_implies, implies_true, and_true]
    exact ⟨explains_declaration explains, explains_function ih, explains_ifElse explains ih,
      explains_loop explains ih, (explains_terminated (explains_headed _ explains)).map,
      (explains_terminated (explains_headed _ explains)).map, explains_assign explains,
      (explains_terminated explains).map⟩

/-- The faults of the parser lie inside the text, also those of blocks that it could not read. -/
theorem explains_program (depth : Nat) : Explains True size (program depth) :=
  (explains_statement (explains_expression _) _).many.skipRight .finished

end Grammar

/-- A text is accepted if both its tokens and its statements are read without a fault. -/
theorem read_eq_ok_iff {source : String} {stmts : List Stmt} :
    read source = .ok stmts ↔ ∃ tokens,
      (outcome? (lex source) = some tokens ∧ faults (lex source) = []) ∧
      outcome? (parse source tokens) = some stmts ∧ faults (parse source tokens) = [] := by
  unfold read
  dsimp only
  constructor
  · intro done
    split at done
    · cases done
    · rename_i tokens lexed
      split at done
      · rename_i parsed none
        cases done
        rw [List.append_eq_nil_iff, List.map_eq_nil_iff, List.map_eq_nil_iff] at none
        exact ⟨tokens, ⟨lexed, none.1⟩, parsed, none.2⟩
      · cases done
  · rintro ⟨tokens, ⟨lexed, noneLexed⟩, parsed, noneParsed⟩
    simp only [lexed, parsed, noneLexed, noneParsed, List.map_nil, List.append_nil]

section Errors

variable {source : String} {tokens : List (Token × Span)}

/-- All faults of a reply lie inside the text. -/
theorem inside_of_explained {σ α : Type} {mends : Prop} {size : Nat} {cursor : Cursor σ}
    {reply : Reply σ α} (explained : reply.Explained mends size cursor) :
    ∀ fault ∈ faults reply, fault.Inside size := by
  cases explained with
  | done explained => exact fun fault member => (explained.left fault member).2
  | failed left inside =>
    refine List.forall_mem_append.mpr ⟨fun fault member => (left fault member).2, ?_⟩
    rintro _ (_ | ⟨_, ⟨⟩⟩)
    exact inside

theorem lex_explained (source : String) : (lex source).Explained False source.utf8ByteSize
    (.ofList (Token.located 0 source.toList) (endOf source)) := by
  obtain ⟨ordered, bounds⟩ := Token.located_inside 0 source.toList
  rw [Nat.zero_add, String.ofList_toList] at bounds
  exact Token.Lexer.explains_tokens _
    ⟨ordered, fun item member => (bounds item member).2, Nat.le_refl _, Nat.le_refl _⟩

/-- The lexer leaves no fault behind where it gives tokens. -/
theorem lex_clean (read : outcome? (lex source) = some tokens) : faults (lex source) = [] := by
  have explained := lex_explained source
  generalize lex source = reply at explained read ⊢
  cases explained with
  | done explained =>
    exact List.eq_nil_iff_forall_not_mem.mpr fun fault member => (explained.left fault member).1
  | failed => cases read

private theorem parse_explained (read : outcome? (lex source) = some tokens) :
    (parse source tokens).Explained True source.utf8ByteSize (.ofList tokens (endOf source)) := by
  obtain ⟨ordered, inside⟩ := (tiles_of_lex read (lex_clean read)).inside
  exact Grammar.explains_program _ _
    ⟨ordered, fun item member => (inside item member).2, Nat.le_refl _, Nat.le_refl _⟩

/-- The error for a fault points to one place, which lies inside the text. -/
theorem diagnostic_ofFault {σ : Type} {size : Nat} (text : σ → String) {fault : Fault σ}
    (inside : fault.Inside size) : ∃ remark span,
      (ReadError.ofFault text fault).diagnostic.labels = [(remark, span)] ∧ span.Inside size := by
  unfold ReadError.ofFault
  split
  · exact ⟨_, _, rfl, inside.span⟩
  · rename_i opened delimiter reason
    exact ⟨_, _, rfl, inside.opened opened delimiter reason⟩
  · exact ⟨_, _, rfl, inside.span⟩

/-- A text that is not accepted has an error, and each error stands for a fault of the lexer or of
the parser. -/
theorem errors_of_read {errors : List ReadError} (failed : read source = .error errors) :
    errors ≠ [] ∧ ∀ error ∈ errors,
      (∃ fault ∈ faults (lex source), error = .ofFault Char.toString fault) ∨
      ∃ tokens, outcome? (lex source) = some tokens ∧
        ∃ fault ∈ faults (parse source tokens), error = .ofFault Token.text fault := by
  have nonempty {σ α : Type} {reply : Reply σ α} (none : outcome? reply = none) :
      faults reply ≠ [] := by
    cases reply with
    | done s => cases none
    | failed recorded fault => simp [faults]
  unfold read at failed
  dsimp only at failed
  split at failed
  · rename_i none
    obtain rfl := Except.error.inj failed
    refine ⟨fun same => nonempty none (List.map_eq_nil_iff.mp same), fun error member => ?_⟩
    obtain ⟨fault, known, rfl⟩ := List.mem_map.mp member
    exact .inl ⟨fault, known, rfl⟩
  · rename_i tokens lexed
    split at failed
    · cases failed
    · rename_i refused
      obtain rfl := Except.error.inj failed
      refine ⟨fun same => ?_, fun error member => ?_⟩
      · cases parsed : outcome? (parse source tokens) with
        | none =>
          exact nonempty parsed (List.map_eq_nil_iff.mp (List.append_eq_nil_iff.mp same).2)
        | some statements => exact refused statements parsed same
      · obtain member | member := List.mem_append.mp member
        · obtain ⟨fault, known, rfl⟩ := List.mem_map.mp member
          exact .inl ⟨fault, known, rfl⟩
        · obtain ⟨fault, known, rfl⟩ := List.mem_map.mp member
          exact .inr ⟨tokens, lexed, fault, known, rfl⟩

/-- A text is accepted if lexer and parser have read it without any fault, also without one that the
parser went on after. Otherwise there is an error, and every error points to one place, which lies
inside the text. -/
theorem read_explained (source : String) :
    (∃ statements, read source = .ok statements ∧ ∃ tokens,
      (outcome? (lex source) = some tokens ∧ faults (lex source) = []) ∧
        outcome? (parse source tokens) = some statements ∧ faults (parse source tokens) = []) ∨
    ∃ errors, read source = .error errors ∧ errors ≠ [] ∧ ∀ error ∈ errors, ∃ remark span,
      error.diagnostic.labels = [(remark, span)] ∧ span.start ≤ span.stop ∧
        span.stop ≤ source.utf8ByteSize := by
  cases done : read source with
  | ok statements => exact .inl ⟨statements, rfl, read_eq_ok_iff.mp done⟩
  | error errors =>
    obtain ⟨nonempty, each⟩ := errors_of_read done
    refine .inr ⟨errors, rfl, nonempty, fun error member => ?_⟩
    obtain ⟨fault, known, rfl⟩ | ⟨tokens, lexed, fault, known, rfl⟩ := each error member
    · exact diagnostic_ofFault _ (inside_of_explained (lex_explained source) fault known)
    · exact diagnostic_ofFault _ (inside_of_explained (parse_explained lexed) fault known)

/-- The parser goes on behind the closed block and gives a tree, but the text is refused. -/
example : let source := "while x < 1 \x7b 2 \x7d"
    ((outcome? (lex source)).bind fun tokens => outcome? (parse source tokens)).isSome = true ∧
      (read source).isOk = false := by decide +kernel

end Errors

end Source

end Wabbit
