import Wabbit.Items.Returns
import Wabbit.Proofs.Kinds.Statements
import Wabbit.Proofs.Negation.Expressions
import Wabbit.Proofs.Tac.Entering

/-!
Programs without negations. Main statement: negations can be written as subtractions in every program
whose operators have operands of one kind, nothing else changes then, the expressions keep their
kinds, they mean what they mean when negations are differences from zero, which is what they mean
anyway where no float that is zero is negated, and it does not matter whether missing returns are
added before or after.
-/

namespace Wabbit

open Ast
open Tac (Address)

variable {ν : Type} {initializers negation negation' : Prop}

namespace Ast

private theorem Condition.kind_replace [Named ν] {f : Expr ν negation → Expr ν False}
    (replaces : Expr.ReplacesNegations f) (condition : Condition ν negation) :
    (condition.replace f).kind = condition.kind := by
  have same : (condition.replace f).toExpr = f condition.toExpr := (replaces.compare ..).symm
  rw [Condition.kind, same, replaces.kind, Condition.kind]

namespace Stmt

mutual

/-- The statement with what has become of its expressions, and with nothing else changed. -/
def replaceExprs (f : Expr ν negation → Expr ν negation') :
    Stmt ν initializers negation → Stmt ν initializers negation'
  | declare name => .declare name
  | define allowed name value => .define allowed name (f value)
  | assign name value => .assign name (f value)
  | print value => .print (f value)
  | ifElse condition ifTrue ifFalse =>
    .ifElse (condition.replace f) (replaceAllExprs f ifTrue) (replaceAllExprs f ifFalse)
  | loop condition body => .loop (condition.replace f) (replaceAllExprs f body)
  | function name parameters body => .function name parameters (replaceAllExprs f body)
  | ret value => .ret (f value)
  | eval value => .eval (f value)

def replaceAllExprs (f : Expr ν negation → Expr ν negation') :
    List (Stmt ν initializers negation) → List (Stmt ν initializers negation')
  | [] => []
  | s :: rest => s.replaceExprs f :: replaceAllExprs f rest

end

mutual

/-- Negations can be written as subtractions exactly where operands have one kind, and then this
happens to every expression. -/
theorem subtract_eq_ok_iff {s : Stmt Symbol False negation} {s' : Stmt Symbol False False} :
    s.subtract = .ok s' ↔
      (∀ e ∈ s.exprs, e.isKinded = true) ∧ s' = s.replaceExprs Expr.subtracted := by
  cases s with
  | declare symbol =>
    constructor
    · intro done
      cases done
      exact ⟨nofun, rfl⟩
    · rintro ⟨-, rfl⟩
      rfl
  | define allowed symbol value => exact allowed.elim
  | ifElse condition ifTrue ifFalse =>
    simp only [subtract, Success.bind_eq_ok, Success.pure_eq_ok, Condition.subtract_eq_ok_iff,
      subtractAll_eq_ok_iff, and_assoc, exists_and_left, exists_eq_left, exprs,
      List.forall_mem_cons, List.forall_mem_append, replaceExprs]
  | loop condition body =>
    simp only [subtract, Success.bind_eq_ok, Success.pure_eq_ok, Condition.subtract_eq_ok_iff,
      subtractAll_eq_ok_iff, and_assoc, exists_and_left, exists_eq_left, exprs,
      List.forall_mem_cons, replaceExprs]
  | function name parameters body =>
    simp only [subtract, Success.bind_eq_ok, Success.pure_eq_ok, subtractAll_eq_ok_iff, and_assoc,
      exists_and_left, exists_eq_left, exprs, replaceExprs]
  | _ =>
    simp only [subtract, Success.bind_eq_ok, Success.pure_eq_ok, Expr.subtract_eq_ok_iff, and_assoc,
      exists_and_left, exists_eq_left, exprs, List.forall_mem_singleton, replaceExprs]

theorem subtractAll_eq_ok_iff {stmts : List (Stmt Symbol False negation)}
    {stmts' : List (Stmt Symbol False False)} :
    subtractAll stmts = .ok stmts' ↔
      (∀ e ∈ allExprs stmts, e.isKinded = true) ∧
        stmts' = replaceAllExprs Expr.subtracted stmts := by
  cases stmts with
  | nil =>
    constructor
    · intro done
      cases done
      exact ⟨nofun, rfl⟩
    · rintro ⟨-, rfl⟩
      rfl
  | cons s rest =>
    simp only [subtractAll, Success.bind_eq_ok, Success.pure_eq_ok, subtract_eq_ok_iff,
      subtractAll_eq_ok_iff, and_assoc, exists_and_left, exists_eq_left, allExprs,
      List.forall_mem_append, replaceAllExprs]

end

theorem replaceAllExprs_eq_map (f : Expr ν negation → Expr ν negation')
    (stmts : List (Stmt ν initializers negation)) :
    replaceAllExprs f stmts = stmts.map (replaceExprs f) := by
  induction stmts with
  | nil => rfl
  | cons s rest ih => rw [replaceAllExprs, ih, List.map_cons]

/-! ### Returns -/

theorem subtractAll_append (front back : List (Stmt Symbol False negation)) :
    subtractAll (front ++ back) = (do return (← subtractAll front) ++ (← subtractAll back)) := by
  induction front with
  | nil =>
    rw [List.nil_append]
    cases subtractAll back <;> rfl
  | cons s rest ih => simp [subtractAll, ih]

theorem subtractAll_ret_zero (kind : Kind) :
    subtractAll [(.ret (.zero kind) : Stmt Symbol False negation)] = .ok [.ret (.zero kind)] := by
  cases kind <;> rfl

private theorem isReturn_replaceExprs (f : Expr Symbol negation → Expr Symbol False)
    (s : Stmt Symbol False negation) : (s.replaceExprs f).isReturn = s.isReturn := by
  cases s <;> rfl

/-- The last statement is a return if it was one before its negations were written otherwise. -/
theorem endsInReturn_subtractAll {stmts : List (Stmt Symbol False negation)}
    {stmts' : List (Stmt Symbol False False)} (done : subtractAll stmts = .ok stmts') :
    stmts'.getLast?.any isReturn = stmts.getLast?.any isReturn := by
  obtain ⟨-, rfl⟩ := subtractAll_eq_ok_iff.mp done
  rw [replaceAllExprs_eq_map, List.getLast?_map, Option.any_map]
  exact congrArg (Option.any · _) (funext (isReturn_replaceExprs _))

end Stmt

end Ast

/-- The function without negations. -/
def FunDef.subtract (f : FunDef (Stmt Symbol False negation)) :
    Except Mismatch (FunDef (Stmt Symbol False False)) :=
  return f.withBody (← Stmt.subtractAll f.body)

/-- A missing return can be added before the negations are written otherwise, or after. -/
theorem FunDef.subtract_ensureReturn (f : FunDef (Stmt Symbol False negation)) :
    f.ensureReturn.subtract = FunDef.ensureReturn <$> f.subtract := by
  by_cases returns : f.body.getLast?.any Stmt.isReturn = true
  · rw [ensureReturn, if_pos returns]
    cases own : Stmt.subtractAll f.body with
    | error mismatch =>
      rw [subtract, own]
      rfl
    | ok body =>
      have kept : (f.withBody body).ensureReturn = f.withBody body := by
        rw [ensureReturn, withBody, Stmt.endsInReturn_subtractAll own, if_pos returns]
      have result : f.subtract = .ok (f.withBody body) := by
        rw [subtract, own]
        rfl
      rw [result]
      exact congrArg Except.ok kept.symm
  · rw [ensureReturn, if_neg returns, subtract, subtract, withBody, Stmt.subtractAll_append,
      Stmt.subtractAll_ret_zero]
    cases own : Stmt.subtractAll f.body with
    | error mismatch => rfl
    | ok body =>
      have added : (f.withBody body).ensureReturn =
          f.withBody (body ++ [.ret (.zero f.name.kind)]) := by
        rw [ensureReturn, withBody, Stmt.endsInReturn_subtractAll own, if_neg returns, withBody,
          withBody]
      exact congrArg Except.ok added.symm

/-! ### Programs -/

namespace Items

/-- Eliminating the negations of a program succeeds, and `f` is what becomes of its expressions. -/
structure NegationsEliminated (program : Items (Stmt Symbol False negation))
    (f : Expr Symbol negation → Expr Symbol False) : Prop where
  replaces : Expr.ReplacesNegations f
  condition_kind : ∀ condition : Condition Symbol negation,
    (condition.replace f).kind = condition.kind
  result : program.eliminateNegation =
    .ok (program.mapFunctions fun g => g.withBody (Stmt.replaceAllExprs f g.body))
  /-- By any rules an expression then has the value, with the same loads and calls in the same order,
  that it has when negations are differences from zero. -/
  meaning : ∀ (w : World) (rules : Rules) (place : Symbol → Address) (e : Expr Symbol negation),
    (f e).evaluate w rules place = e.evaluate w rules.subtracting place
  /-- By the rules of the language this is its own value, if nothing but integers is negated in it. -/
  keeps_integers : ∀ (w : World) (place : Symbol → Address) (e : Expr Symbol negation),
    e.NegatesIntegers → (f e).evaluate w .source place = e.evaluate w .source place
  /-- Otherwise it is its own value, and that of all its parts, exactly if no negated float can be
  zero. -/
  keeps_iff : ∀ (w : World) (place : Symbol → Address) (e : Expr Symbol negation),
    (∀ d ∈ e.parts, (f d).evaluate w .source place = d.evaluate w .source place) ↔
      ∀ d ∈ e.parts, d.NegatesNoZero w place

/-- In a program whose operators have operands of one kind negations can be eliminated, with the
meaning kept where no float that is zero is negated. In every program missing returns can be added
before that or after. -/
theorem eliminateNegation_keeps_meaning_iff (program : Items (Stmt Symbol False negation)) :
    ((∀ g ∈ program.functions, ∀ e ∈ Stmt.allExprs g.body, e.isKinded = true) →
      ∃ f, program.NegationsEliminated f) ∧
    program.ensureReturns.eliminateNegation = ensureReturns <$> program.eliminateNegation := by
  constructor
  · intro kinded
    have replaces : Expr.ReplacesNegations (Expr.subtracted : Expr Symbol negation → _) :=
      Expr.subtracted_replacesNegations
    have keeps_iff (w : World) (place : Symbol → Address) (e : Expr Symbol negation) :
        (∀ d ∈ e.parts, d.subtracted.evaluate w .source place = d.evaluate w .source place) ↔
          ∀ d ∈ e.parts, d.NegatesNoZero w place := Expr.evaluate_subtracted_source_iff
    refine ⟨Expr.subtracted, replaces, Condition.kind_replace replaces, ?_, fun w rules place e => ?_,
      fun w place e integers => ?_, keeps_iff⟩
    · apply mapFunctionsM_of_forall
      intro g member
      have own := Stmt.subtractAll_eq_ok_iff.mpr ⟨kinded g member, rfl⟩
      rw [own]
      rfl
    · exact Expr.evaluate_subtracted e
    · have noZero : ∀ d ∈ e.parts, d.NegatesNoZero w place := Expr.negatesNoZero_of_integers integers
      exact (keeps_iff w place e).mpr noZero e e.self_mem_parts
  · calc program.ensureReturns.eliminateNegation
      _ = program.mapFunctionsM fun g => g.ensureReturn.subtract := mapFunctionsM_mapFunctions ..
      _ = program.mapFunctionsM fun g => FunDef.ensureReturn <$> g.subtract :=
        congrArg (mapFunctionsM · program) (funext FunDef.subtract_ensureReturn)
      _ = ensureReturns <$> program.eliminateNegation := (map_mapFunctionsM ..).symm

/-- Negations of negations, of the least integer, in a condition, in an argument and of a float, in a
function that lacks its return. -/
theorem eliminateNegation_keeps_meaning_iff_stacked :
    let x : Symbol := .stack "x" .integer
    let y : Symbol := .global "y" .float
    let main : Symbol := .global "main" .integer
    let least : Expr Symbol True := .neg trivial (.neg trivial (.int (-2147483648)))
    let test : Condition Symbol True := ⟨.less, .neg trivial (.name x), .int 0⟩
    let program : Items (Stmt Symbol False True) :=
      [.global y, .function ⟨main, [x], [.assign x least,
        .loop test [.eval (.call main [.neg trivial (.name x)])], .print (.neg trivial (.name y))]⟩]
    let least' : Expr Symbol False := .arith .sub (.int 0) (.arith .sub (.int 0) (.int (-2147483648)))
    let opposite : Expr Symbol False := .arith .sub (.int 0) (.name x)
    let program' : Items (Stmt Symbol False False) :=
      [.global y, .function ⟨main, [x], [.assign x least',
        .loop ⟨.less, opposite, .int 0⟩ [.eval (.call main [opposite])],
        .print (.arith .sub (.float .zero) (.name y))]⟩]
    (∀ g ∈ program.functions, ∀ e ∈ Stmt.allExprs g.body, e.isKinded = true) ∧
      program.eliminateNegation = .ok program' ∧
      program.ensureReturns.eliminateNegation = .ok program'.ensureReturns ∧
      ∀ (w : World) (place : Symbol → Address),
        least'.evaluate w .source place = least.evaluate w .source place := by
  intro x y main least test program least' opposite program'
  have kinded : ∀ g ∈ program.functions, ∀ e ∈ Stmt.allExprs g.body, e.isKinded = true := by
    decide
  obtain ⟨succeeds, either⟩ := eliminateNegation_keeps_meaning_iff program
  obtain ⟨f, eliminated⟩ := succeeds kinded
  have replaces := eliminated.replaces
  have negated : f least = least' := by
    rw [replaces.neg, replaces.neg, replaces.int]
    rfl
  have turned : f (.neg trivial (.name x)) = opposite := by
    rw [replaces.neg, replaces.name]
    rfl
  have result : program.eliminateNegation = .ok program' := by
    rw [eliminated.result]
    simp only [program, test, mapFunctions, FunDef.withBody, Stmt.replaceAllExprs, Stmt.replaceExprs,
      Condition.replace, List.map_cons, List.map_nil, negated, turned, replaces.call, replaces.int,
      replaces.neg, replaces.name]
    rfl
  have integers : least.NegatesIntegers := by
    intro allowed inner inside
    simp only [least, Expr.parts, List.mem_cons] at inside
    rcases inside with same | same | same | none
    · cases same
      rfl
    · cases same
      rfl
    · cases same
    · cases none
  refine ⟨kinded, result, ?_, fun w place => ?_⟩
  · rw [either, result]
    rfl
  · rw [← negated]
    exact eliminated.keeps_integers w place least integers

/-- A world in which every call says whether its first argument is a float with a minus sign. -/
def signs : World :=
  { World.ofCells with
    call := fun store _ arguments kind =>
      let negative := match arguments with
        | ⟨.float, x⟩ :: _ => Binary64.isNegative x
        | _ => false
      some (World.ofFlag negative kind, store) }

/-- In `f(-y)` a zero is negated: it has a minus sign before negations are eliminated, and none then. -/
theorem eliminateNegation_drops_sign :
    let y : Symbol := .global "y" .float
    let f : Symbol := .global "f" .integer
    let main : Symbol := .global "main" .integer
    let e : Expr Symbol True := .call f [.neg trivial (.name y)]
    let e' : Expr Symbol False := .call f [.arith .sub (.float .zero) (.name y)]
    let zeros : signs.State := ⟨fun _ => ⟨.float, Binary64.zero⟩, []⟩
    e.kind = .integer ∧ e.isKinded = true ∧
      eliminateNegation [.global y, .function ⟨main, [], [.print e]⟩] =
        .ok [.global y, .function ⟨main, [], [.print e']⟩] ∧
      (World.outcome (e.evaluate signs .source .ofSymbol) zeros).1 =
        some (.number ⟨.integer, (1 : Int32)⟩) ∧
      (World.outcome (e'.evaluate signs .source .ofSymbol) zeros).1 =
        some (.number ⟨.integer, (0 : Int32)⟩) := by
  intro y f main e e' zeros
  have before : Binary64.zero.neg.isNegative = true := by decide
  have after : (Binary64.sub .zero .zero).isNegative = false := by decide
  let told (negative : Bool) : Option Entry := some (.number ⟨.integer, World.ofFlag negative .integer⟩)
  exact ⟨rfl, rfl, rfl, congrArg told before, congrArg told after⟩

end Items

end Wabbit
