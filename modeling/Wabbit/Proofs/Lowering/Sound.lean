import Wabbit.Items.Returns
import Wabbit.Stack.Lowering
import Wabbit.Proofs.Flow.Inner
import Wabbit.Proofs.Kinds.Expressions

/-!
Statements that can be lowered whatever they say: operators have operands of one kind, and variables
that are declared inside of functions are on the stack. Resolution gives no others, and their code
takes nothing from the stack of operands that it has not put there.
-/

namespace Wabbit

open Ast Stack

/-! ### Code of expressions -/

mutual

/-- The code of an expression leaves one value on the stack. -/
theorem Ast.Expr.heightAfter_instrs (e : Expr Symbol False) (height : Nat) :
    heightAfter height e.instrs = some (height + 1) := by
  cases e with
  | arith op left right | compare op left right =>
    have operands := heightAfter_append (left.heightAfter_instrs height) (right.heightAfter_instrs _)
    exact heightAfter_append operands (heightAfter_cons.mpr ⟨by simp [Instr.takes], rfl⟩)
  | call function arguments =>
    have operands := Expr.heightAfter_allInstrs arguments height
    refine heightAfter_append operands (heightAfter_cons.mpr ⟨by simp [Instr.takes], ?_⟩)
    simp [Instr.takes, Instr.gives, heightAfter]
  | neg allowed inner => exact allowed.elim
  | _ => rfl

theorem Ast.Expr.heightAfter_allInstrs (es : List (Expr Symbol False)) (height : Nat) :
    heightAfter height (Expr.allInstrs es) = some (height + es.length) := by
  cases es with
  | nil => rfl
  | cons e rest =>
    have others := Expr.heightAfter_allInstrs rest (height + 1)
    rw [List.length_cons, Nat.add_comm rest.length, ← Nat.add_assoc]
    exact heightAfter_append (e.heightAfter_instrs height) others

end

mutual

theorem Ast.Expr.instrs_plain (e : Expr Symbol False) : ∀ i ∈ e.instrs, i.isTerminator = false := by
  cases e with
  | arith op left right | compare op left right =>
    simp only [Expr.instrs, List.forall_mem_append, List.forall_mem_singleton]
    exact ⟨⟨left.instrs_plain, right.instrs_plain⟩, rfl⟩
  | call function arguments =>
    simp only [Expr.instrs, List.forall_mem_append, List.forall_mem_singleton]
    exact ⟨Expr.allInstrs_plain arguments, rfl⟩
  | neg allowed inner => exact allowed.elim
  | _ => exact List.forall_mem_singleton.mpr rfl

theorem Ast.Expr.allInstrs_plain (es : List (Expr Symbol False)) :
    ∀ i ∈ Expr.allInstrs es, i.isTerminator = false := by
  cases es with
  | nil => exact nofun
  | cons e rest => exact List.forall_mem_append.mpr ⟨e.instrs_plain, Expr.allInstrs_plain rest⟩

end

/-- Whether some code may decide a branch: it has no terminator and leaves one value. -/
def Stack.Code.isTest (code : Code) : Bool := code.isPlain && heightAfter 0 code.instrs = some 1

theorem Ast.Expr.code_isTest (e : Expr Symbol False) : e.code.isTest = true := by
  have plain : e.code.isPlain = true := by simpa [Code.isPlain, Expr.code] using e.instrs_plain
  have height : heightAfter 0 e.code.instrs = some 1 := e.heightAfter_instrs 0
  simp [Code.isTest, plain, height]

/-- The code of an expression, and what is done with its value, may stand in a leaf. -/
theorem Ast.Expr.isLeafCode_instrs (e : Expr Symbol False) {last : List Instr}
    (straight : isStraight last = true) (known : (heightAfter 1 last).isSome = true) :
    isLeafCode (e.instrs ++ last) = true := by
  obtain ⟨final, known⟩ := Option.isSome_iff_exists.mp known
  have height := heightAfter_append (e.heightAfter_instrs 0) known
  simp [isLeafCode, isStraight_append e.instrs_plain straight, height]

/-! ### Code of statements -/

namespace Ast.Stmt

variable {negation : Prop}

/-- How a statement becomes code: first its negations are eliminated, then it is lowered. -/
inductive BecomesCode : Stmt Symbol False negation → Nested Straight → Prop where
  | declare {symbol : Symbol} (inner : symbol.isGlobal = false) :
      BecomesCode (.declare symbol) (.leaf [.slot symbol.name])
  | assign {symbol : Symbol} {value : Expr Symbol negation} {value' : Expr Symbol False}
      (own : value.subtract = .ok value') :
      BecomesCode (.assign symbol value) (.leaf (value'.instrs ++ [.store symbol]))
  | print {value : Expr Symbol negation} {value' : Expr Symbol False}
      (own : value.subtract = .ok value') :
      BecomesCode (.print value) (.leaf (value'.instrs ++ [.print value'.kind]))
  | ret {value : Expr Symbol negation} {value' : Expr Symbol False}
      (own : value.subtract = .ok value') :
      BecomesCode (.ret value) (.leaf (value'.instrs ++ [.ret value'.kind]))
  | eval {value : Expr Symbol negation} {value' : Expr Symbol False}
      (own : value.subtract = .ok value') : BecomesCode (.eval value) (.leaf value'.instrs)
  | ifElse {condition : Condition Symbol negation} {condition' : Condition Symbol False}
      {ifTrue ifFalse : List (Stmt Symbol False negation)}
      {ifTrue' ifFalse' : List (Stmt Symbol False False)} {arm₁ arm₂ : List (Nested Straight)}
      (test : condition.subtract = .ok condition') (first : subtractAll ifTrue = .ok ifTrue')
      (first' : Nested.straightenAll (lowerAll ifTrue') = .ok arm₁)
      (second : subtractAll ifFalse = .ok ifFalse')
      (second' : Nested.straightenAll (lowerAll ifFalse') = .ok arm₂) :
      BecomesCode (.ifElse condition ifTrue ifFalse) (.ifElse condition'.toExpr.code arm₁ arm₂)
  | loop {condition : Condition Symbol negation} {condition' : Condition Symbol False}
      {body : List (Stmt Symbol False negation)} {body' : List (Stmt Symbol False False)}
      {inner : List (Nested Straight)} (test : condition.subtract = .ok condition')
      (round : subtractAll body = .ok body')
      (round' : Nested.straightenAll (lowerAll body') = .ok inner) :
      BecomesCode (.loop condition body) (.loop condition'.toExpr.code inner)
  | function {name : Symbol} {parameters : List Symbol} {body : List (Stmt Symbol False negation)}
      {body' : List (Stmt Symbol False False)} {inner : List (Nested Straight)}
      (round : subtractAll body = .ok body')
      (round' : Nested.straightenAll (lowerAll body') = .ok inner) :
      BecomesCode (.function name parameters body) (.function name parameters inner)

theorem lower_inv {s : Stmt Symbol False negation} {plain : Stmt Symbol False False}
    {t : Nested Straight} (subtracted : s.subtract = .ok plain)
    (straightened : plain.lower.straighten = .ok t) : s.BecomesCode t := by
  cases s with
  | declare symbol =>
    cases subtracted
    simp only [lower, Nested.straighten, Lowered.straighten, Success.bind_eq_ok] at straightened
    obtain ⟨instrs, own, last⟩ := straightened
    cases last
    split at own
    · cases own
    · rename_i inner
      cases own
      exact .declare (Bool.eq_false_iff.mpr inner)
  | define allowed symbol value => exact allowed.elim
  | ifElse condition ifTrue ifFalse =>
    simp only [subtract, Success.bind_eq_ok] at subtracted
    obtain ⟨condition', test, ifTrue', first, ifFalse', second, last⟩ := subtracted
    cases last
    simp only [lower, Nested.straighten, Success.bind_eq_ok] at straightened
    obtain ⟨arm₁, first', arm₂, second', last⟩ := straightened
    cases last
    exact .ifElse test first first' second second'
  | loop condition body =>
    simp only [subtract, Success.bind_eq_ok] at subtracted
    obtain ⟨condition', test, body', round, last⟩ := subtracted
    cases last
    simp only [lower, Nested.straighten, Success.bind_eq_ok] at straightened
    obtain ⟨inner, round', last⟩ := straightened
    cases last
    exact .loop test round round'
  | function name parameters body =>
    simp only [subtract, Success.bind_eq_ok] at subtracted
    obtain ⟨body', round, last⟩ := subtracted
    cases last
    simp only [lower, Nested.straighten, Success.bind_eq_ok] at straightened
    obtain ⟨inner, round', last⟩ := straightened
    cases last
    exact .function round round'
  | assign | print | ret | eval =>
    simp only [subtract, Success.bind_eq_ok] at subtracted
    obtain ⟨value, own, last⟩ := subtracted
    cases last
    cases straightened
    constructor
    exact own

/-- Statements become code one after the other. -/
theorem lowerAll_cons {s : Stmt Symbol False negation} {rest : List (Stmt Symbol False negation)}
    {plain : List (Stmt Symbol False False)} {stmts' : List (Nested Straight)}
    (subtracted : subtractAll (s :: rest) = .ok plain)
    (straightened : Nested.straightenAll (lowerAll plain) = .ok stmts') :
    ∃ s' t rest' ts, s.subtract = .ok s' ∧ s'.lower.straighten = .ok t ∧
      subtractAll rest = .ok rest' ∧ Nested.straightenAll (lowerAll rest') = .ok ts ∧
      stmts' = t :: ts := by
  simp only [subtractAll, Success.bind_eq_ok] at subtracted
  obtain ⟨s', own, rest', others, last⟩ := subtracted
  cases last
  simp only [lowerAll, Nested.straightenAll, Success.bind_eq_ok] at straightened
  obtain ⟨t, own', ts, others', last⟩ := straightened
  cases last
  exact ⟨s', t, rest', ts, own, own', others, others', rfl⟩

end Ast.Stmt

/-! ### Functions inside of statements -/

namespace Ast.Stmt

variable {ν : Type} {initializers negation : Prop}

mutual

/-- The functions that a statement defines, also inside of others. -/
def functions : Stmt ν initializers negation → List ν
  | ifElse _ ifTrue ifFalse => allFunctions ifTrue ++ allFunctions ifFalse
  | loop _ body => allFunctions body
  | function name _ body => name :: allFunctions body
  | _ => []

def allFunctions : List (Stmt ν initializers negation) → List ν
  | [] => []
  | s :: rest => s.functions ++ allFunctions rest

end

end Ast.Stmt

/-! ### Sound statements -/

namespace Ast.Condition

variable {negation : Prop}

private theorem isKinded_resolve {scope : Scope} {condition : Condition Name negation}
    {condition' : Condition Symbol negation}
    (done : (condition.resolve scope).result = .ok condition') :
    condition'.toExpr.isKinded = true := by
  simp only [resolve, Success.result_bind_eq_ok] at done
  obtain ⟨left, first, right, second, last⟩ := done
  cases last
  simp [toExpr, Expr.isKinded, Expr.isKinded_resolve first, Expr.isKinded_resolve second]

theorem subtract_succeeds {condition : Condition Symbol negation}
    (kinded : condition.toExpr.isKinded = true) :
    ∃ condition', condition.subtract = .ok condition' :=
  ⟨_, subtract_eq_ok_iff.mpr ⟨kinded, rfl⟩⟩

end Ast.Condition

namespace Ast.Stmt

variable {negation : Prop}

mutual

/-- Whether all operators of a statement have operands of one kind, and all that it declares lives as
long as it should: at the top level as long as the program, and elsewhere on a stack. -/
def isSound (depth : Depth) : Stmt Symbol False negation → Bool
  | declare symbol => symbol.isGlobal = (depth = .topLevel)
  | define allowed _ _ => allowed.elim
  | assign _ value | print value | ret value | eval value => value.isKinded
  | ifElse condition ifTrue ifFalse =>
    condition.toExpr.isKinded && allSound .nested ifTrue && allSound .nested ifFalse
  | loop condition body => condition.toExpr.isKinded && allSound .nested body
  | function name _ body => name.isGlobal = (depth = .topLevel) && allSound .nested body

def allSound (depth : Depth) : List (Stmt Symbol False negation) → Bool
  | [] => true
  | s :: rest => s.isSound depth && allSound depth rest

end

private theorem isGlobal_declare (scope : Scope) (depth : Depth) (name : Name) :
    (scope.declare depth name).1.isGlobal = (depth = .topLevel) := by
  cases depth <;> simp [Scope.declare, Symbol.isGlobal, Symbol.global, Symbol.stack]

mutual

theorem resolve_sound {s : Stmt Name False negation} {scope : Scope} {depth : Depth}
    {out : Stmt Symbol False negation × Scope} (done : (s.resolve scope depth).result = .ok out) :
    out.1.isSound depth = true := by
  cases s with
  | declare name =>
    cases resolve_inv done
    simp [isSound, isGlobal_declare]
  | define allowed name value => exact allowed.elim
  | ifElse condition ifTrue ifFalse =>
    cases resolve_inv done with
    | ifElse test first second =>
      simp [isSound, Condition.isKinded_resolve test, resolveAll_sound first, resolveAll_sound second]
  | loop condition body =>
    cases resolve_inv done with
    | loop test round =>
      simp [isSound, Condition.isKinded_resolve test, resolveAll_sound round]
  | function name parameters body =>
    cases resolve_inv done with
    | function round => simp [isSound, isGlobal_declare, resolveAll_sound round]
  | assign name value =>
    cases resolve_inv done with
    | assign target own => exact Expr.isKinded_resolve own
  | print value =>
    cases resolve_inv done with
    | print own => exact Expr.isKinded_resolve own
  | ret value =>
    cases resolve_inv done with
    | ret own => exact Expr.isKinded_resolve own
  | eval value =>
    cases resolve_inv done with
    | eval own => exact Expr.isKinded_resolve own

theorem resolveAll_sound {stmts : List (Stmt Name False negation)} {scope : Scope} {depth : Depth}
    {out : List (Stmt Symbol False negation) × Scope}
    (done : (resolveAll scope depth stmts).result = .ok out) : allSound depth out.1 = true := by
  cases stmts with
  | nil =>
    cases done
    rfl
  | cons s rest =>
    obtain ⟨s', rest', middle, behind, own, others, rfl⟩ := resolveAll_cons done
    simp [allSound, resolve_sound own, resolveAll_sound others]

end

/-- What a sound statement is lowered to: straight code in its leaves, that takes nothing from the
stack that it has not put there, code that leaves one value in its conditions, and the same functions
inside. -/
structure Lowers (s : Stmt Symbol False negation) (t : Nested Straight) : Prop where
  leaves : ∀ leaf ∈ t.leaves, isLeafCode leaf = true
  conditions : ∀ condition ∈ t.conditions, condition.isTest = true
  functions : t.functions = s.functions
  closes : s.isReturn = true → Nested.isClosed id [t] = true

private theorem Lowers.leaf {s : Stmt Symbol False negation} {instrs : Straight}
    (proper : isLeafCode instrs = true) (none : s.functions = [])
    (closes : s.isReturn = true → isTerminated instrs = true) : Lowers s (.leaf instrs) where
  leaves := List.forall_mem_singleton.mpr proper
  conditions := nofun
  functions := none.symm
  closes := closes

section Lists

variable {stmts : List (Stmt Symbol False negation)} {stmts' : List (Nested Straight)}

theorem allLeaves_lowers (all : List.Forall₂ Lowers stmts stmts') :
    ∀ leaf ∈ Nested.allLeaves stmts', isLeafCode leaf = true := by
  induction all with
  | nil => exact nofun
  | cons own _ ih => exact List.forall_mem_append.mpr ⟨own.leaves, ih⟩

theorem allConditions_lowers (all : List.Forall₂ Lowers stmts stmts') :
    ∀ condition ∈ Nested.allConditions stmts', condition.isTest = true := by
  induction all with
  | nil => exact nofun
  | cons own _ ih => exact List.forall_mem_append.mpr ⟨own.conditions, ih⟩

theorem allFunctions_lowers (all : List.Forall₂ Lowers stmts stmts') :
    Nested.allFunctions stmts' = allFunctions stmts := by
  induction all with
  | nil => rfl
  | cons own _ ih => rw [Nested.allFunctions, allFunctions, own.functions, ih]

/-- Statements that end in a return become statements that end in a leaf which does not run on. -/
theorem isClosed_lowers (all : List.Forall₂ Lowers stmts stmts')
    (returns : stmts.getLast?.any isReturn = true) : Nested.isClosed id stmts' = true := by
  induction all with
  | nil => cases returns
  | @cons s t rest rest' own others ih =>
    cases others with
    | nil => exact own.closes (by simpa using returns)
    | cons second others => exact Nested.isClosed_cons t (ih (by simpa using returns))

end Lists

/-- The statement can be lowered. -/
def CanLower (s : Stmt Symbol False negation) : Prop :=
  ∃ plain t, s.subtract = .ok plain ∧ plain.lower.straighten = .ok t ∧ Lowers s t

/-- All of several statements can be lowered. -/
def AllCanLower (stmts : List (Stmt Symbol False negation)) : Prop :=
  ∃ plain stmts', subtractAll stmts = .ok plain ∧
    Nested.straightenAll (lowerAll plain) = .ok stmts' ∧ List.Forall₂ Lowers stmts stmts'

private theorem canLower_ifElse {condition : Condition Symbol negation}
    {ifTrue ifFalse : List (Stmt Symbol False negation)}
    (kinded : condition.toExpr.isKinded = true) (inTrue : AllCanLower ifTrue)
    (inFalse : AllCanLower ifFalse) : CanLower (.ifElse condition ifTrue ifFalse) := by
  obtain ⟨condition', test⟩ := Condition.subtract_succeeds kinded
  obtain ⟨plain₁, arm₁, subtracted₁, straightened₁, first⟩ := inTrue
  obtain ⟨plain₂, arm₂, subtracted₂, straightened₂, second⟩ := inFalse
  refine ⟨.ifElse condition' plain₁ plain₂, .ifElse condition'.toExpr.code arm₁ arm₂, ?_, ?_, ?_⟩
  · simp only [subtract, Success.bind_eq_ok]
    exact ⟨condition', test, plain₁, subtracted₁, plain₂, subtracted₂, rfl⟩
  · simp only [lower, Nested.straighten, Success.bind_eq_ok]
    exact ⟨arm₁, straightened₁, arm₂, straightened₂, rfl⟩
  · constructor
    · exact List.forall_mem_append.mpr ⟨allLeaves_lowers first, allLeaves_lowers second⟩
    · refine List.forall_mem_cons.mpr ⟨Expr.code_isTest _, List.forall_mem_append.mpr ?_⟩
      exact ⟨allConditions_lowers first, allConditions_lowers second⟩
    · rw [Nested.functions, allFunctions_lowers first, allFunctions_lowers second, functions]
    · intro returns
      cases returns

private theorem canLower_loop {condition : Condition Symbol negation}
    {body : List (Stmt Symbol False negation)} (kinded : condition.toExpr.isKinded = true)
    (inside : AllCanLower body) : CanLower (.loop condition body) := by
  obtain ⟨condition', test⟩ := Condition.subtract_succeeds kinded
  obtain ⟨plain, inner, subtracted, straightened, round⟩ := inside
  refine ⟨.loop condition' plain, .loop condition'.toExpr.code inner, ?_, ?_, ?_⟩
  · simp only [subtract, Success.bind_eq_ok]
    exact ⟨condition', test, plain, subtracted, rfl⟩
  · simp only [lower, Nested.straighten, Success.bind_eq_ok]
    exact ⟨inner, straightened, rfl⟩
  · constructor
    · exact allLeaves_lowers round
    · exact List.forall_mem_cons.mpr ⟨Expr.code_isTest _, allConditions_lowers round⟩
    · exact allFunctions_lowers round
    · intro returns
      cases returns

private theorem canLower_function {name : Symbol} {parameters : List Symbol}
    {body : List (Stmt Symbol False negation)} (inside : AllCanLower body) :
    CanLower (.function name parameters body) := by
  obtain ⟨plain, inner, subtracted, straightened, round⟩ := inside
  refine ⟨.function name parameters plain, .function name parameters inner, ?_, ?_, ?_⟩
  · simp only [subtract, Success.bind_eq_ok]
    exact ⟨plain, subtracted, rfl⟩
  · simp only [lower, Nested.straighten, Success.bind_eq_ok]
    exact ⟨inner, straightened, rfl⟩
  · constructor
    · exact allLeaves_lowers round
    · exact allConditions_lowers round
    · rw [Nested.functions, allFunctions_lowers round, functions]
    · intro returns
      cases returns

mutual

/-- Sound statements can be lowered. -/
theorem lower_succeeds {s : Stmt Symbol False negation} (sound : s.isSound .nested = true) :
    CanLower s := by
  cases s with
  | declare symbol =>
    have inner : symbol.isGlobal = false := by simpa [isSound] using sound
    refine ⟨.declare symbol, .leaf [.slot symbol.name], rfl, ?_, .leaf rfl rfl nofun⟩
    simp [lower, Nested.straighten, Lowered.straighten, inner]
  | define allowed symbol value => exact allowed.elim
  | assign symbol value =>
    obtain ⟨value', own, -⟩ := Expr.subtract_succeeds sound
    refine ⟨.assign symbol value', .leaf (value'.instrs ++ [.store symbol]), ?_, rfl, ?_⟩
    · simp only [subtract, Success.bind_eq_ok]
      exact ⟨value', own, rfl⟩
    · exact .leaf (value'.isLeafCode_instrs rfl rfl) rfl nofun
  | print value =>
    obtain ⟨value', own, -⟩ := Expr.subtract_succeeds sound
    refine ⟨.print value', .leaf (value'.instrs ++ [.print value'.kind]), ?_, rfl, ?_⟩
    · simp only [subtract, Success.bind_eq_ok]
      exact ⟨value', own, rfl⟩
    · exact .leaf (value'.isLeafCode_instrs rfl rfl) rfl nofun
  | ret value =>
    obtain ⟨value', own, -⟩ := Expr.subtract_succeeds sound
    refine ⟨.ret value', .leaf (value'.instrs ++ [.ret value'.kind]), ?_, rfl, ?_⟩
    · simp only [subtract, Success.bind_eq_ok]
      exact ⟨value', own, rfl⟩
    · exact .leaf (value'.isLeafCode_instrs rfl rfl) rfl fun _ => isTerminated_append_singleton ..
  | eval value =>
    obtain ⟨value', own, -⟩ := Expr.subtract_succeeds sound
    refine ⟨.eval value', .leaf value'.instrs, ?_, rfl, ?_⟩
    · simp only [subtract, Success.bind_eq_ok]
      exact ⟨value', own, rfl⟩
    · have proper : isLeafCode (value'.instrs ++ []) = true := value'.isLeafCode_instrs rfl rfl
      rw [List.append_nil] at proper
      exact .leaf proper rfl nofun
  | ifElse condition ifTrue ifFalse =>
    simp only [isSound, Bool.and_eq_true] at sound
    exact canLower_ifElse sound.1.1 (lowerAll_succeeds sound.1.2) (lowerAll_succeeds sound.2)
  | loop condition body =>
    simp only [isSound, Bool.and_eq_true] at sound
    exact canLower_loop sound.1 (lowerAll_succeeds sound.2)
  | function name parameters body =>
    simp only [isSound, Bool.and_eq_true] at sound
    exact canLower_function (lowerAll_succeeds sound.2)

theorem lowerAll_succeeds {stmts : List (Stmt Symbol False negation)}
    (sound : allSound .nested stmts = true) : AllCanLower stmts := by
  cases stmts with
  | nil => exact ⟨[], [], rfl, rfl, .nil⟩
  | cons s rest =>
    simp only [allSound, Bool.and_eq_true] at sound
    obtain ⟨plain, t, subtracted, straightened, own⟩ := lower_succeeds sound.1
    obtain ⟨plains, ts, subtracted', straightened', others⟩ := lowerAll_succeeds sound.2
    refine ⟨plain :: plains, t :: ts, ?_, ?_, .cons own others⟩
    · simp only [subtractAll, Success.bind_eq_ok]
      exact ⟨plain, subtracted, plains, subtracted', rfl⟩
    · simp only [lowerAll, Nested.straightenAll, Success.bind_eq_ok]
      exact ⟨t, straightened, ts, straightened', rfl⟩

end

end Ast.Stmt

end Wabbit
