import Wabbit.Proofs.Grammar.Leaves
import Wabbit.Proofs.Typing.Erasure

/-!
The derivation of the text that a typed tree is printed as: operators inside an operator stand in
parentheses, an empty second arm is left out, and declarations with a value have no kind. Its tree
is the one that was given its kinds, except for the kinds that are left out or added.
-/

namespace Wabbit.Source

namespace Phrase

/-- A single operand. -/
def lone (operand : Phrase (.expr .unary)) : Phrase (.expr (.chain .sum)) :=
  .chain (.chain operand .noLinks) .noLinks

/-- Two operands joined by an operator. -/
def arith (op : Arithmetic) (left right : Phrase (.expr .unary)) : Phrase (.expr (.chain .sum)) :=
  match ranked : Rank.of op with
  | .product => .chain (.chain left (.link op ranked right .noLinks)) .noLinks
  | .sum => .chain (.chain left .noLinks) (.link op ranked (.chain right .noLinks) .noLinks)

/-- An operand with one more minus sign. -/
def negate : Phrase (.expr .unary) → Phrase (.expr .unary)
  | .unary signs inner => .unary (signs + 1) inner

variable (operand left right : Phrase (.expr .unary)) (op : Arithmetic)

@[simp]
theorem tokens_lone : (lone operand).tokens = operand.tokens := by simp [lone]

@[simp]
theorem tree_lone : (lone operand).tree = operand.tree := rfl

@[simp]
theorem tokens_arith : (arith op left right).tokens = left.tokens ++ op.token :: right.tokens := by
  unfold arith
  split <;> simp

@[simp]
private theorem tree_arith :
    (arith op left right).tree = Expr.binary (.arithmetic op) left.tree right.tree {} := by
  unfold arith
  split <;> rfl

@[simp]
theorem tokens_negate : (negate operand).tokens = .minus :: operand.tokens := by
  cases operand with
  | unary signs inner => rfl

@[simp]
private theorem tree_negate : (negate operand).tree = Expr.neg operand.tree {} := by
  cases operand with
  | unary signs inner => rfl

end Phrase

/-- A printed expression: an operand by itself, or one that needs parentheses inside another. -/
abbrev Printed := Phrase (.expr .unary) ⊕ Phrase (.expr .comparison)

namespace Printed

/-- The expression inside another. -/
def operand : Printed → Phrase (.expr .unary)
  | .inl operand => operand
  | .inr whole => .unary 0 (.group whole)

/-- The expression by itself. -/
def whole : Printed → Phrase (.expr .comparison)
  | .inl operand => .sum (.lone operand)
  | .inr whole => whole

@[simp]
theorem operand_inl (phrase : Phrase (.expr .unary)) : operand (.inl phrase) = phrase := rfl

@[simp]
theorem operand_inr (phrase : Phrase (.expr .comparison)) :
    operand (.inr phrase) = .unary 0 (.group phrase) := rfl

@[simp]
theorem whole_inl (operand : Phrase (.expr .unary)) :
    whole (.inl operand) = .sum (.lone operand) := rfl

@[simp]
theorem whole_inr (phrase : Phrase (.expr .comparison)) : whole (.inr phrase) = phrase := rfl

/-- Parentheses leave no node. -/
@[simp]
private theorem tree_operand (printed : Printed) : printed.operand.tree = printed.whole.tree := by
  cases printed <;> rfl

end Printed

mutual

/-- The statement with empty spans, without the kind of a variable that has a value, and with the
kinds of functions' results as they stand in the typed statement; nothing if that is not a typed form
of the statement. -/
def Stmt.settled : Stmt → Ast.Stmt Ast.Name True True → Option Stmt
  | .declare name kind _, .declare _ => some (.declare name.bare kind {})
  | .define name _ value _, .define .. => some (.define name.bare none value.bare {})
  | .assign name value _, .assign .. => some (.assign name.bare value.bare {})
  | .print value _, .print _ => some (.print value.bare {})
  | .ifElse condition ifTrue ifFalse _, .ifElse _ ifTrue' ifFalse' => do
    return .ifElse condition.bare (← Stmt.settledAll ifTrue ifTrue')
      (← Stmt.settledAll ifFalse ifFalse') {}
  | .loop condition body _, .loop _ body' => do
    return .loop condition.bare (← Stmt.settledAll body body') {}
  | .function name parameters _ body _, .function typed _ body' => do
    return .function name.bare parameters (some typed.kind) (← Stmt.settledAll body body') {}
  | .ret value _, .ret _ => some (.ret value.bare {})
  | .eval value _, .eval _ => some (.eval value.bare {})
  | _, _ => none

/-- The statements of a block, each with what was found for it. -/
def Stmt.settledAll : List Stmt → List (Ast.Stmt Ast.Name True True) → Option (List Stmt)
  | [], [] => some []
  | s :: rest, t :: rest' => do return (← s.settled t) :: (← Stmt.settledAll rest rest')
  | _, _ => none

end

mutual

/-- Settling kinds changes no name and no number. -/
theorem Stmt.leaves_settled {s settled : Stmt} {typed : Ast.Stmt Ast.Name True True}
    (done : s.settled typed = some settled) : settled.leaves = s.bare.leaves := by
  cases s with
  | declare name kind span | define name kind value span | assign name value span
  | print value span | ret value span | eval value span =>
    cases typed <;> cases done
    rfl
  | ifElse condition ifTrue ifFalse span =>
    cases typed with
    | ifElse condition' ifTrue' ifFalse' =>
      simp only [Stmt.settled, Option.bind_eq_bind, Option.bind_eq_some_iff] at done
      obtain ⟨left, first, right, second, last⟩ := done
      cases last
      simp [Stmt.bare, Stmt.leaves, Stmt.allLeaves_settledAll first,
        Stmt.allLeaves_settledAll second]
    | _ => cases done
  | loop condition body span =>
    cases typed with
    | loop condition' body' =>
      simp only [Stmt.settled, Option.bind_eq_bind, Option.bind_eq_some_iff] at done
      obtain ⟨inner, first, last⟩ := done
      cases last
      simp [Stmt.bare, Stmt.leaves, Stmt.allLeaves_settledAll first]
    | _ => cases done
  | function name parameters result body span =>
    cases typed with
    | function name' parameters' body' =>
      simp only [Stmt.settled, Option.bind_eq_bind, Option.bind_eq_some_iff] at done
      obtain ⟨inner, first, last⟩ := done
      cases last
      simp [Stmt.bare, Stmt.leaves, Stmt.allLeaves_settledAll first]
    | _ => cases done

theorem Stmt.allLeaves_settledAll {stmts settled : List Stmt}
    {typed : List (Ast.Stmt Ast.Name True True)}
    (done : Stmt.settledAll stmts typed = some settled) :
    Stmt.allLeaves settled = Stmt.allLeaves (Stmt.bareAll stmts) := by
  cases stmts with
  | nil =>
    cases typed with
    | nil =>
      cases done
      rfl
    | cons t rest' => cases done
  | cons s rest =>
    cases typed with
    | nil => cases done
    | cons t rest' =>
      simp only [Stmt.settledAll, Option.bind_eq_bind, Option.bind_eq_some_iff] at done
      obtain ⟨s', first, others, second, last⟩ := done
      cases last
      rw [Stmt.allLeaves, Stmt.leaves_settled first, Stmt.allLeaves_settledAll second,
        Stmt.bareAll, Stmt.allLeaves]

end

end Wabbit.Source

namespace Wabbit

namespace Ast

open Source

namespace Expr

mutual

/-- The derivation of the text of an expression. -/
def printed : Expr Name True → Printed
  | .int value => .inl (.unary 0 (.int value))
  | .float value => .inl (.unary 0 (.float value))
  | .name n => .inl (.unary 0 (.var n.text))
  | .arith op left right => .inr (.sum (.arith op left.printed.operand right.printed.operand))
  | .compare op left right =>
    .inr (.compare (.lone left.printed.operand) op (.lone right.printed.operand))
  | .call callee arguments => .inl (.unary 0 (.call callee.text (printedList arguments)))
  | .neg _ inner => .inl (.negate inner.printed.operand)

/-- The derivation of the text of arguments. -/
def printedList : List (Expr Name True) → Phrase (.list .argument)
  | [] => .noEntries
  | e :: rest => .entries (.argument e.printed.whole) (printedOthers rest)

/-- The derivation of the text of the arguments behind the first. -/
def printedOthers : List (Expr Name True) → Phrase (.others .argument)
  | [] => .noOthers
  | e :: rest => .other (.argument e.printed.whole) (printedOthers rest)

end

end Expr

/-- The derivation of the text of the parameters behind the first. -/
def otherParameters : List Name → Phrase (.others .parameter)
  | [] => .noOthers
  | p :: rest => .other (.parameter p.text p.kind) (otherParameters rest)

/-- The derivation of the text of parameters. -/
def parameterList : List Name → Phrase (.list .parameter)
  | [] => .noEntries
  | p :: rest => .entries (.parameter p.text p.kind) (otherParameters rest)

namespace Stmt

mutual

/-- The derivation of the text of a statement. -/
def printed : Stmt Name True True → Phrase .statement
  | .declare name => .declare name.text name.kind
  | .define _ name value => .define name.text none value.printed.whole
  | .assign name value => .assign name.text value.printed.whole
  | .print value => .print value.printed.whole
  | .ifElse condition ifTrue [] => .branch condition.toExpr.printed.whole (printedAll ifTrue)
  | .ifElse condition ifTrue (s :: rest) =>
    .branchElse condition.toExpr.printed.whole (printedAll ifTrue)
      (.statements s.printed (printedAll rest))
  | .loop condition body => .loop condition.toExpr.printed.whole (printedAll body)
  | .function name parameters body =>
    .function name.text (parameterList parameters) (some name.kind) (printedAll body)
  | .ret value => .ret value.printed.whole
  | .eval value => .eval value.printed.whole

/-- The derivation of the text of statements. -/
def printedAll : List (Stmt Name True True) → Phrase .statements
  | [] => .noStatements
  | s :: rest => .statements s.printed (printedAll rest)

end

/-- A second arm that is left out is empty. -/
theorem tree_ifElse (condition : Condition Name True) (ifTrue ifFalse : List (Stmt Name True True)) :
    (printed (.ifElse condition ifTrue ifFalse)).tree =
      Source.Stmt.ifElse condition.toExpr.printed.whole.tree (printedAll ifTrue).tree
        (printedAll ifFalse).tree {} := by
  cases ifFalse <;> rfl

end Stmt

private theorem tree_otherParameters (parameters : List Name) :
    (otherParameters parameters).tree = parameters.map fun p => (p.text, p.kind) := by
  induction parameters with
  | nil => rfl
  | cons p rest ih => simp [otherParameters, ih]

private theorem tree_parameterList (parameters : List Name) :
    (parameterList parameters).tree = parameters.map fun p => (p.text, p.kind) := by
  cases parameters with
  | nil => rfl
  | cons p rest => simp [parameterList, tree_otherParameters]

private theorem Expr.tree_printedList (arguments : List (Expr Name True)) :
    (Expr.printedList arguments).tree = (Expr.printedOthers arguments).tree := by
  cases arguments <;> rfl

mutual

/-- The text of an expression derives the expression without its kinds. -/
theorem Expr.tree_printed (e : Expr Name True) : e.printed.whole.tree = e.erased := by
  cases e with
  | arith op left right | compare op left right =>
    simp [printed, erased, tree_printed left, tree_printed right]
  | call function arguments =>
    rw [erased, ← Expr.tree_printedOthers arguments, ← tree_printedList]
    rfl
  | neg allowed inner => simp [printed, erased, tree_printed inner]
  | _ => rfl

theorem Expr.tree_printedOthers (arguments : List (Expr Name True)) :
    (Expr.printedOthers arguments).tree = Expr.allErased arguments := by
  cases arguments with
  | nil => rfl
  | cons e rest =>
    simp [printedOthers, allErased, Expr.tree_printed e, Expr.tree_printedOthers rest]

end

end Ast

namespace Typing

open Ast Source

/-- The text of an expression derives the tree that was given its kinds. -/
theorem tree_checkExpr {context : Context} {e : Source.Expr} {typed : Ast.Expr Name True}
    (done : checkExpr context e = .ok typed) : typed.printed.whole.tree = e.bare :=
  typed.tree_printed.trans (erased_checkExpr done)

mutual

/-- The text of a statement derives the tree that was given its kinds, with the kinds settled. -/
theorem tree_checkStmt {s : Source.Stmt} {context : Context} {out : Ast.Stmt Name True True × Context}
    (done : checkStmt context s = .ok out) : s.settled out.1 = some out.1.printed.tree := by
  cases s with
  | declare ident kind span =>
    cases checkStmt_inv done
    rfl
  | define ident annotation value span =>
    cases checkStmt_inv done with
    | define own fits => simp [Ast.Stmt.printed, Source.Stmt.settled, tree_checkExpr own, Ident.bare]
  | assign ident value span =>
    cases checkStmt_inv done with
    | introduce own unknown | assign own known =>
      simp [Ast.Stmt.printed, Source.Stmt.settled, tree_checkExpr own, Ident.bare]
  | ifElse test ifTrue ifFalse span =>
    cases checkStmt_inv done with
    | ifElse tested first second =>
      simp [Source.Stmt.settled, Ast.Stmt.tree_ifElse, tree_checkExpr tested,
        tree_checkBlock first, tree_checkBlock second]
  | loop test body span =>
    cases checkStmt_inv done with
    | loop tested round =>
      simp [Ast.Stmt.printed, Source.Stmt.settled, tree_checkExpr tested, tree_checkBlock round]
  | function ident parameters result body span =>
    cases checkStmt_inv done with
    | function round returned =>
      simp [Source.Stmt.settled, Ast.Stmt.printed, tree_parameterList, erased_parameters,
        -List.map_map, tree_checkBlock round, Ident.bare]
  | print value span =>
    cases checkStmt_inv done with
    | print own => simp [Ast.Stmt.printed, Source.Stmt.settled, tree_checkExpr own]
  | ret value span =>
    cases checkStmt_inv done with
    | ret own => simp [Ast.Stmt.printed, Source.Stmt.settled, tree_checkExpr own]
  | eval value span =>
    cases checkStmt_inv done with
    | eval own => simp [Ast.Stmt.printed, Source.Stmt.settled, tree_checkExpr own]

/-- The text of statements derives the trees that were given their kinds. -/
theorem tree_checkBlock {stmts : List Source.Stmt} {context : Context}
    {out : List (Ast.Stmt Name True True) × Context} (done : checkBlock context stmts = .ok out) :
    Source.Stmt.settledAll stmts out.1 = some (Ast.Stmt.printedAll out.1).tree := by
  cases stmts with
  | nil =>
    cases done
    rfl
  | cons s rest =>
    obtain ⟨s', rest', middle, behind, own, others, rfl⟩ := checkBlock_cons done
    simp [Ast.Stmt.printedAll, Source.Stmt.settledAll, tree_checkStmt own, tree_checkBlock others]

end

end Typing

end Wabbit
