import Wabbit.Items.Negation
import Wabbit.Items.Returns
import Wabbit.Stack.Lowering
import Wabbit.Proofs.Flow.Labels
import Wabbit.Proofs.Names.Slots

/-!
The variables of a function on their way from statements to blocks. Every step keeps them, each of
them once and in the order of the text.
-/

namespace Wabbit

open Ast Stack

namespace Stack

/-- The variable that an instruction makes room for. -/
def Instr.slot? : Instr → Option String
  | slot name => some name.text
  | _ => none

/-- The variables that some instructions make room for. -/
def slotsOf (instrs : List Instr) : List String := instrs.filterMap Instr.slot?

@[simp]
theorem slotsOf_append (front back : List Instr) :
    slotsOf (front ++ back) = slotsOf front ++ slotsOf back := List.filterMap_append

@[simp]
theorem slotsOf_cons (i : Instr) (rest : List Instr) :
    slotsOf (i :: rest) = i.slot?.toList ++ slotsOf rest := by
  simp only [slotsOf, List.filterMap_cons]
  cases i.slot? <;> rfl

@[simp]
theorem slotsOf_nil : slotsOf [] = [] := rfl

/-- The variables that a statement makes room for. -/
def Lowered.slots : Lowered → List String
  | declare symbol => if symbol.isGlobal then [] else [symbol.text]
  | assign _ value | print value | ret value | eval value => slotsOf value.instrs

namespace Nested

variable {α : Type}

mutual

/-- The variables that a nested statement makes room for, where those of its leaves are given. A
function inside it has a stack of its own. -/
def slots (own : α → List String) : Nested α → List String
  | leaf x => own x
  | ifElse condition ifTrue ifFalse =>
    slotsOf condition.instrs ++ (allSlots own ifTrue ++ allSlots own ifFalse)
  | loop condition body => slotsOf condition.instrs ++ allSlots own body
  | function _ _ _ => []

def allSlots (own : α → List String) : List (Nested α) → List String
  | [] => []
  | s :: rest => s.slots own ++ allSlots own rest

end

end Nested

/-- The variables that some blocks make room for. -/
def blockSlots (blocks : List Block) : List String := blocks.flatMap fun block => slotsOf block.instrs

@[simp]
theorem blockSlots_append (front back : List Block) :
    blockSlots (front ++ back) = blockSlots front ++ blockSlots back := List.flatMap_append

@[simp]
theorem blockSlots_cons (block : Block) (rest : List Block) :
    blockSlots (block :: rest) = slotsOf block.instrs ++ blockSlots rest := List.flatMap_cons

end Stack

/-! ### Statements -/

namespace Ast

variable {negation : Prop}

namespace Stmt

mutual

theorem slots_subtract {s : Stmt Symbol False negation} {t : Stmt Symbol False False}
    (done : s.subtract = .ok t) : t.slots = s.slots := by
  cases s with
  | declare symbol =>
    cases done
    rfl
  | define allowed symbol value => exact allowed.elim
  | ifElse condition ifTrue ifFalse =>
    simp only [subtract, Success.bind_eq_ok] at done
    obtain ⟨condition', -, ifTrue', first, ifFalse', second, last⟩ := done
    cases last
    simp only [slots, allSlots_subtractAll first, allSlots_subtractAll second]
  | loop condition body =>
    simp only [subtract, Success.bind_eq_ok] at done
    obtain ⟨condition', -, body', inner, last⟩ := done
    cases last
    simp only [slots, allSlots_subtractAll inner]
  | _ =>
    simp only [subtract, Success.bind_eq_ok] at done
    obtain ⟨value, -, last⟩ := done
    cases last
    rfl

theorem allSlots_subtractAll {stmts : List (Stmt Symbol False negation)}
    {stmts' : List (Stmt Symbol False False)} (done : subtractAll stmts = .ok stmts') :
    allSlots stmts' = allSlots stmts := by
  cases stmts with
  | nil =>
    cases done
    rfl
  | cons s rest =>
    simp only [subtractAll, Success.bind_eq_ok] at done
    obtain ⟨s', own, rest', others, last⟩ := done
    cases last
    simp only [allSlots, slots_subtract own, allSlots_subtractAll others]

end

theorem allSlots_append (front back : List (Stmt Symbol False negation)) :
    allSlots (front ++ back) = allSlots front ++ allSlots back := by
  induction front with
  | nil => rfl
  | cons s rest ih => simp [allSlots, ih]

end Stmt

mutual

/-- The code of an expression makes no room for variables. -/
@[simp]
theorem Expr.slotsOf_instrs (e : Expr Symbol False) : slotsOf e.instrs = [] := by
  cases e with
  | arith op left right | compare op left right =>
    simp [Expr.instrs, Expr.slotsOf_instrs left, Expr.slotsOf_instrs right, Instr.slot?]
  | call function arguments =>
    simp [Expr.instrs, Expr.slotsOf_allInstrs arguments, Instr.slot?]
  | neg allowed inner => exact allowed.elim
  | _ => simp [Expr.instrs, Instr.slot?]

theorem Expr.slotsOf_allInstrs (es : List (Expr Symbol False)) :
    slotsOf (Expr.allInstrs es) = [] := by
  cases es with
  | nil => rfl
  | cons e rest =>
    simp [Expr.allInstrs, Expr.slotsOf_instrs e, Expr.slotsOf_allInstrs rest]

end

mutual

theorem Stmt.slots_lower (s : Stmt Symbol False False) :
    s.lower.slots Lowered.slots = s.slots := by
  cases s with
  | define allowed symbol value => exact allowed.elim
  | ifElse condition ifTrue ifFalse =>
    simp [Stmt.lower, Nested.slots, Stmt.slots, Expr.code, Stmt.slots_lowerAll ifTrue,
      Stmt.slots_lowerAll ifFalse]
  | loop condition body =>
    simp [Stmt.lower, Nested.slots, Stmt.slots, Expr.code, Stmt.slots_lowerAll body]
  | declare symbol => rfl
  | function name parameters body => rfl
  | _ => simp [Stmt.lower, Nested.slots, Lowered.slots, Stmt.slots, Expr.code]

theorem Stmt.slots_lowerAll (stmts : List (Stmt Symbol False False)) :
    Nested.allSlots Lowered.slots (Stmt.lowerAll stmts) = Stmt.allSlots stmts := by
  cases stmts with
  | nil => rfl
  | cons s rest =>
    simp only [Stmt.lowerAll, Nested.allSlots, Stmt.allSlots, Stmt.slots_lower s,
      Stmt.slots_lowerAll rest]

end

end Ast

/-! ### Nested statements -/

namespace Stack

private theorem Lowered.slotsOf_straighten {x : Lowered} {instrs : Straight}
    (done : x.straighten = .ok instrs) : slotsOf instrs = x.slots := by
  cases x with
  | declare symbol =>
    simp only [straighten] at done
    split at done
    · cases done
    · rename_i inner
      cases done
      simp [slots, inner, Instr.slot?, Symbol.name]
  | _ =>
    cases done
    simp [slots, Instr.slot?]

namespace Nested

mutual

theorem slots_straighten {s : Nested Lowered} {t : Nested Straight} (done : s.straighten = .ok t) :
    t.slots slotsOf = s.slots Lowered.slots := by
  cases s with
  | leaf x =>
    simp only [straighten, Success.bind_eq_ok] at done
    obtain ⟨instrs, own, last⟩ := done
    cases last
    exact Lowered.slotsOf_straighten own
  | ifElse condition ifTrue ifFalse =>
    simp only [straighten, Success.bind_eq_ok] at done
    obtain ⟨ifTrue', first, ifFalse', second, last⟩ := done
    cases last
    simp only [slots, slots_straightenAll first, slots_straightenAll second]
  | loop condition body =>
    simp only [straighten, Success.bind_eq_ok] at done
    obtain ⟨body', inner, last⟩ := done
    cases last
    simp only [slots, slots_straightenAll inner]
  | function name parameters body =>
    simp only [straighten, Success.bind_eq_ok] at done
    obtain ⟨body', -, last⟩ := done
    cases last
    rfl

theorem slots_straightenAll {stmts : List (Nested Lowered)} {stmts' : List (Nested Straight)}
    (done : straightenAll stmts = .ok stmts') :
    allSlots slotsOf stmts' = allSlots Lowered.slots stmts := by
  cases stmts with
  | nil =>
    cases done
    rfl
  | cons s rest =>
    simp only [straightenAll, Success.bind_eq_ok] at done
    obtain ⟨s', own, rest', others, last⟩ := done
    cases last
    simp only [allSlots, slots_straighten own, slots_straightenAll others]

end

private theorem slots_joinRun (instrs : Straight) (rest : List (Nested Straight)) :
    allSlots slotsOf (joinRun instrs rest) = slotsOf instrs ++ allSlots slotsOf rest := by
  rcases joinRun_cases instrs rest with same | ⟨-, next, others, rfl, same⟩
  · rw [same]
    rfl
  · simp [same, allSlots, slots]

theorem slots_joinAllRuns (stmts : List (Nested Straight)) :
    allSlots slotsOf (joinAllRuns stmts) = allSlots slotsOf stmts := by
  induction stmts using inductionAll with
  | nil => rfl
  | leaf instrs rest ih =>
    rw [joinAllRuns, slots_joinRun, ih]
    rfl
  | ifElse condition ifTrue ifFalse rest first second ih =>
    simp only [joinAllRuns, joinRuns, allSlots, slots, first, second, ih]
  | loop condition body rest inner ih =>
    simp only [joinAllRuns, joinRuns, allSlots, slots, inner, ih]
  | function name parameters body rest _ ih =>
    simp only [joinAllRuns, joinRuns, allSlots, slots, ih]

theorem slots_labelAll (stmts : List (Nested Straight)) (l : Labelling) :
    allSlots (fun block => slotsOf block.instrs) ((labelAll stmts).run l).1 =
      allSlots slotsOf stmts := by
  induction stmts using inductionAll generalizing l with
  | nil => rfl
  | leaf instrs rest ih => exact congrArg (slotsOf instrs ++ ·) (ih _)
  | ifElse condition ifTrue ifFalse rest first second ih =>
    have arms := congrArg₂ (· ++ ·) (first l) (second ((labelAll ifTrue).run l).2)
    exact congrArg₂ (slotsOf condition.instrs ++ · ++ ·) arms (ih _)
  | loop condition body rest inner ih =>
    exact congrArg₂ (slotsOf condition.instrs ++ · ++ ·) (inner l) (ih _)
  | function name parameters body rest _ ih => exact ih _

end Nested

end Stack

namespace Flow

@[simp]
private theorem slotsOf_closeBlock (block : Block) (next : Label) :
    slotsOf (closeBlock block next).instrs = slotsOf block.instrs := by
  unfold closeBlock
  split <;> simp [Instr.slot?]

@[simp]
private theorem slotsOf_test (label : Label) (condition : Code) (ifTrue ifFalse : Label) :
    slotsOf (test label condition ifTrue ifFalse).instrs = slotsOf condition.instrs := by
  simp [test, Instr.slot?]

/-- Blocks make room for the variables of the statements that they are laid out from. -/
theorem LaidOut.slots {next : Label} {stmts : List (Nested Block)} {linked : Linked}
    (laid : LaidOut next stmts linked) :
    blockSlots linked.blocks = Nested.allSlots (fun block => slotsOf block.instrs) stmts := by
  induction laid with
  | nil => rfl
  | pass label => rfl
  | leaf block others ih => simp [Nested.allSlots, Nested.slots, ih]
  | branch label others first second ih ih₁ ih₂ =>
    simp [Nested.allSlots, Nested.slots, ih, ih₁, ih₂]
  | loop label others round ih ih₁ => simp [Nested.allSlots, Nested.slots, ih, ih₁]

end Flow

/-! ### Programs -/

/-- The functions have the same parameters and make room for the same variables. -/
structure FunDef.SameSlots {β γ : Type} (slots : List β → List String) (slots' : List γ → List String)
    (f : FunDef β) (g : FunDef γ) : Prop where
  parameters : g.parameters = f.parameters
  slots : slots' g.body = slots f.body

theorem FunDef.ensureReturn_sameSlots {negation : Prop} (f : FunDef (Stmt Symbol False negation)) :
    SameSlots Stmt.allSlots Stmt.allSlots f f.ensureReturn := by
  unfold FunDef.ensureReturn
  split
  · exact ⟨rfl, rfl⟩
  · refine ⟨rfl, ?_⟩
    simp [FunDef.withBody, Stmt.allSlots_append, Stmt.allSlots, Stmt.slots]

namespace Items

theorem Related.sameSlots {β γ δ : Type} {slots : List β → List String}
    {slots' : List γ → List String} {slots'' : List δ → List String} {program : Items β}
    {program' : Items γ} {program'' : Items δ}
    (first : Items.Related (FunDef.SameSlots slots slots') program program')
    (second : Items.Related (FunDef.SameSlots slots' slots'') program' program'') :
    Items.Related (FunDef.SameSlots slots slots'') program program'' := by
  refine (first.trans second).imp ?_
  rintro f - h - ⟨g, same, same'⟩
  exact ⟨same'.parameters.trans same.parameters, same'.slots.trans same.slots⟩

variable {negation : Prop}

theorem ensureReturns_sameSlots (program : Items (Stmt Symbol False negation)) :
    Items.Related (FunDef.SameSlots Stmt.allSlots Stmt.allSlots) program program.ensureReturns := by
  refine (related_mapFunctions _ program).imp ?_
  rintro f - g - rfl
  exact f.ensureReturn_sameSlots

theorem eliminateNegation_sameSlots {program : Items (Stmt Symbol False negation)}
    {plain : Items (Stmt Symbol False False)} (done : program.eliminateNegation = .ok plain) :
    Items.Related (FunDef.SameSlots Stmt.allSlots Stmt.allSlots) program plain := by
  refine (related_mapFunctionsM_ok done).imp ?_
  intro f _ g _ own
  obtain ⟨body, subtracted, last⟩ := Success.bind_eq_ok.mp own
  cases last
  exact ⟨rfl, Stmt.allSlots_subtractAll subtracted⟩

theorem lowerExpressions_sameSlots (program : Items (Stmt Symbol False False)) :
    Items.Related (FunDef.SameSlots Stmt.allSlots (Nested.allSlots Lowered.slots)) program
      program.lowerExpressions := by
  refine (related_mapFunctions _ program).imp ?_
  rintro f - g - rfl
  exact ⟨rfl, Stmt.slots_lowerAll f.body⟩

theorem lowerStatements_sameSlots {program : Items (Nested Lowered)}
    {straight : Items (Nested Straight)} (done : program.lowerStatements = .ok straight) :
    Items.Related (FunDef.SameSlots (Nested.allSlots Lowered.slots) (Nested.allSlots slotsOf)) program
      straight := by
  refine (related_mapFunctionsM_ok done).imp ?_
  intro f _ g _ own
  obtain ⟨body, straightened, last⟩ := Success.bind_eq_ok.mp own
  cases last
  exact ⟨rfl, Nested.slots_straightenAll straightened⟩

theorem groupBlocks_sameSlots (program : Items (Nested Straight)) (l : Labelling) :
    Items.Related (FunDef.SameSlots (Nested.allSlots slotsOf)
      (Nested.allSlots fun block => slotsOf block.instrs)) program (program.groupBlocks.run l).1 := by
  refine (related_groupBlocks program l).imp ?_
  rintro f - g - ⟨m, rfl⟩
  refine ⟨rfl, ?_⟩
  simp only [FunDef.withBody, Nested.slots_labelAll, Nested.slots_joinAllRuns]

theorem link_sameSlots {program : Items (Nested Block)} {linked : Items Block} {l l' : Labelling}
    (done : program.link.run l = .ok (linked, l')) :
    Items.Related (FunDef.SameSlots (Nested.allSlots fun block => slotsOf block.instrs) blockSlots)
      program linked := by
  refine (related_mapFunctionsM done).imp ?_
  rintro f - g - ⟨m, m', own⟩
  obtain ⟨-, out, laid, rfl⟩ := Flow.linkFunction_laidOut own ⟨0⟩
  exact ⟨rfl, laid.slots⟩

end Items

end Wabbit
