import Wabbit.Compiler
import Wabbit.Proofs.Outline.Leading

/-!
Whether a function comes back to where it starts. Main statement: a jump leads to the first block of
a compiled function exactly if the function has no parameters and its first statement is a loop that
goes round.
-/

namespace Wabbit

open Ast

/-! ### Statements -/

namespace Ast.Stmt

variable {ν μ : Type} {initializers initializers' negation negation' : Prop}

mutual

/-- Whether control may come to the end of a statement. -/
def leadsOn : Stmt ν initializers negation → Bool
  | ret _ => false
  | ifElse _ ifTrue ifFalse => allLeadOn ifTrue || allLeadOn ifFalse
  | _ => true

/-- Whether control may come to the end of several statements. What stands behind a return counts as
if it could be reached. -/
def allLeadOn : List (Stmt ν initializers negation) → Bool
  | [] => true
  | s :: rest => if rest.isEmpty then s.leadsOn else allLeadOn rest

end

/-- Whether a statement is a loop that goes round. -/
def loopsBack : Stmt ν initializers negation → Bool
  | loop _ body => allLeadOn body
  | _ => false

/-- Whether the first of some statements is a loop that goes round. -/
def startWithLoop (stmts : List (Stmt ν initializers negation)) : Bool := stmts.head?.any loopsBack

/-- For the definition of a function, whether the function comes back to where it starts. -/
def returnsToStart? : Stmt ν initializers negation → Option Bool
  | function _ parameters body => some (parameters.isEmpty && startWithLoop body)
  | _ => none

/-- Whether a statement of the top level becomes a part of the main function. -/
def isLoose : Stmt ν initializers negation → Bool
  | declare _ | function _ _ _ => false
  | _ => true

end Ast.Stmt

/-- For every function of a program, whether it comes back to where it starts. The last one is the
function of the loose statements. -/
def Ast.Script.returnsToStart {ν : Type} {initializers negation : Prop}
    (script : Script ν initializers negation) : List Bool :=
  script.filterMap Stmt.returnsToStart? ++ [Stmt.startWithLoop (script.filter Stmt.isLoose)]

/-! ### Folding and resolution -/

namespace Ast.Stmt

variable {ν μ : Type} {initializers initializers' negation negation' : Prop}

/-- Two statements lead to the same places. -/
structure SameFlow (s : Stmt ν initializers negation) (t : Stmt μ initializers' negation') :
    Prop where
  leads : t.leadsOn = s.leadsOn
  loops : t.loopsBack = s.loopsBack
  returns : t.returnsToStart? = s.returnsToStart?
  loose : t.isLoose = s.isLoose

section Lists

variable {stmts : List (Stmt ν initializers negation)}
  {stmts' : List (Stmt μ initializers' negation')} (same : List.Forall₂ SameFlow stmts stmts')
include same

theorem allLeadOn_sameFlow : allLeadOn stmts' = allLeadOn stmts := by
  induction same with
  | nil => rfl
  | cons own others ih =>
    cases others with
    | nil => simp [allLeadOn, own.leads]
    | cons => simpa [allLeadOn] using ih

theorem startWithLoop_sameFlow : startWithLoop stmts' = startWithLoop stmts := by
  cases same with
  | nil => rfl
  | cons own others => exact own.loops

private theorem loose_sameFlow :
    List.Forall₂ SameFlow (stmts.filter isLoose) (stmts'.filter isLoose) := by
  induction same with
  | nil => exact .nil
  | cons own _ ih =>
    simp only [List.filter_cons, own.loose]
    split
    · exact .cons own ih
    · exact ih

private theorem returnsToStart_sameFlow :
    Script.returnsToStart stmts' = Script.returnsToStart stmts := by
  have functions : stmts'.filterMap returnsToStart? = stmts.filterMap returnsToStart? := by
    induction same with
    | nil => rfl
    | cons own _ ih => simp only [List.filterMap_cons, own.returns, ih]
  have loose := startWithLoop_sameFlow (loose_sameFlow same)
  simp only [Script.returnsToStart, functions, loose]

end Lists

section Compound

variable {arm₁ arm₂ : List (Stmt ν initializers negation)}
  {arm₁' arm₂' : List (Stmt μ initializers' negation')}

theorem SameFlow.ifElse (condition : Condition ν negation) (condition' : Condition μ negation')
    (first : List.Forall₂ SameFlow arm₁ arm₁') (second : List.Forall₂ SameFlow arm₂ arm₂') :
    SameFlow (.ifElse condition arm₁ arm₂) (.ifElse condition' arm₁' arm₂') where
  leads := by simp only [leadsOn, allLeadOn_sameFlow first, allLeadOn_sameFlow second]
  loops := rfl
  returns := rfl
  loose := rfl

theorem SameFlow.loop (condition : Condition ν negation) (condition' : Condition μ negation')
    (inner : List.Forall₂ SameFlow arm₁ arm₁') :
    SameFlow (.loop condition arm₁) (.loop condition' arm₁') where
  leads := rfl
  loops := allLeadOn_sameFlow inner
  returns := rfl
  loose := rfl

theorem SameFlow.function (name : ν) (name' : μ) {parameters : List ν} {parameters' : List μ}
    (header : parameters'.isEmpty = parameters.isEmpty)
    (inner : List.Forall₂ SameFlow arm₁ arm₁') :
    SameFlow (.function name parameters arm₁) (.function name' parameters' arm₁') where
  leads := rfl
  loops := rfl
  returns := by simp only [returnsToStart?, header, startWithLoop_sameFlow inner]
  loose := rfl

end Compound

mutual

theorem fold_sameFlow [Named ν] {s t : Stmt ν initializers negation} (done : s.fold = .ok t) :
    SameFlow s t := by
  cases s with
  | declare name =>
    cases done
    exact ⟨rfl, rfl, rfl, rfl⟩
  | ifElse condition ifTrue ifFalse =>
    simp only [fold, Success.bind_eq_ok] at done
    obtain ⟨condition', -, ifTrue', first, ifFalse', second, last⟩ := done
    cases last
    exact .ifElse _ _ (foldAll_sameFlow first) (foldAll_sameFlow second)
  | loop condition body =>
    simp only [fold, Success.bind_eq_ok] at done
    obtain ⟨condition', -, body', inner, last⟩ := done
    cases last
    exact .loop _ _ (foldAll_sameFlow inner)
  | function name parameters body =>
    simp only [fold, Success.bind_eq_ok] at done
    obtain ⟨body', inner, last⟩ := done
    cases last
    exact .function _ _ rfl (foldAll_sameFlow inner)
  | _ =>
    simp only [fold, Success.bind_eq_ok] at done
    obtain ⟨value, -, last⟩ := done
    cases last
    exact ⟨rfl, rfl, rfl, rfl⟩

/-- Folded statements lead where the statements lead. -/
theorem foldAll_sameFlow [Named ν] {stmts stmts' : List (Stmt ν initializers negation)}
    (done : foldAll stmts = .ok stmts') : List.Forall₂ SameFlow stmts stmts' := by
  cases stmts with
  | nil =>
    cases done
    exact .nil
  | cons s rest =>
    simp only [foldAll, Success.bind_eq_ok] at done
    obtain ⟨s', own, rest', others, last⟩ := done
    cases last
    exact .cons (fold_sameFlow own) (foldAll_sameFlow others)

end

mutual

theorem resolve_sameFlow {s : Stmt Name False negation} {scope : Scope} {depth : Depth}
    {out : Stmt Symbol False negation × Scope} (done : (s.resolve scope depth).result = .ok out) :
    SameFlow s out.1 := by
  cases s with
  | define allowed name value => exact allowed.elim
  | ifElse condition ifTrue ifFalse =>
    cases resolve_inv done with
    | ifElse test first second =>
      exact .ifElse _ _ (resolveAll_sameFlow first) (resolveAll_sameFlow second)
  | loop condition body =>
    cases resolve_inv done with
    | loop test round => exact .loop _ _ (resolveAll_sameFlow round)
  | function name parameters body =>
    cases resolve_inv done with
    | function round => exact .function _ _ (by cases parameters <;> rfl) (resolveAll_sameFlow round)
  | _ =>
    cases resolve_inv done
    exact ⟨rfl, rfl, rfl, rfl⟩

/-- Statements with symbols lead where the statements lead. -/
theorem resolveAll_sameFlow {stmts : List (Stmt Name False negation)} {scope : Scope} {depth : Depth}
    {out : List (Stmt Symbol False negation) × Scope}
    (done : (resolveAll scope depth stmts).result = .ok out) :
    List.Forall₂ SameFlow stmts out.1 := by
  cases stmts with
  | nil =>
    cases done
    exact .nil
  | cons s rest =>
    obtain ⟨s', rest', middle, behind, own, others, rfl⟩ := resolveAll_cons done
    exact .cons (resolve_sameFlow own) (resolveAll_sameFlow others)

end

/-! ### Splitting -/

theorem allLeadOn_append (front : List (Stmt ν initializers negation))
    {back : List (Stmt ν initializers negation)} (some : back ≠ []) :
    allLeadOn (front ++ back) = allLeadOn back := by
  induction front with
  | nil => rfl
  | cons s rest ih => simp [allLeadOn, some, ih]

theorem split_ne_nil (s : Stmt ν initializers negation) : s.split ≠ [] := by
  cases s <;> simp [split]

theorem splitAll_eq_nil_iff {stmts : List (Stmt ν initializers negation)} :
    splitAll stmts = [] ↔ stmts = [] := by
  cases stmts with
  | nil => simp [splitAll]
  | cons s rest => simp [splitAll, split_ne_nil s]

mutual

theorem allLeadOn_split (s : Stmt ν initializers negation) : allLeadOn s.split = s.leadsOn := by
  cases s with
  | ifElse condition ifTrue ifFalse =>
    simp [split, allLeadOn, leadsOn, allLeadOn_splitAll ifTrue, allLeadOn_splitAll ifFalse]
  | _ => rfl

/-- Statements lead on as well when declarations are taken apart. -/
theorem allLeadOn_splitAll (stmts : List (Stmt ν initializers negation)) :
    allLeadOn (splitAll stmts) = allLeadOn stmts := by
  cases stmts with
  | nil => rfl
  | cons s rest =>
    cases rest with
    | nil => simp [splitAll, allLeadOn, allLeadOn_split s]
    | cons t rest =>
      have more : splitAll (t :: rest) ≠ [] := splitAll_eq_nil_iff.not.mpr nofun
      rw [splitAll, allLeadOn_append _ more, allLeadOn_splitAll (t :: rest)]
      simp [allLeadOn]

end

private theorem startWithLoop_splitAll (stmts : List (Stmt ν initializers negation)) :
    startWithLoop (splitAll stmts) = startWithLoop stmts := by
  cases stmts with
  | nil => rfl
  | cons s rest =>
    cases s with
    | loop condition body => exact allLeadOn_splitAll body
    | _ => rfl

private theorem returnsToStart_splitAll (stmts : List (Stmt ν initializers negation)) :
    Script.returnsToStart (splitAll stmts) = Script.returnsToStart stmts := by
  have functions : (splitAll stmts).filterMap returnsToStart? = stmts.filterMap returnsToStart? := by
    induction stmts with
    | nil => rfl
    | cons s rest ih =>
      rw [splitAll, List.filterMap_append, ih]
      cases s with
      | function name parameters body =>
        simp [split, returnsToStart?, startWithLoop_splitAll body]
      | _ => rfl
  have loose : startWithLoop ((splitAll stmts).filter isLoose) =
      startWithLoop (stmts.filter isLoose) := by
    clear functions
    induction stmts with
    | nil => rfl
    | cons s rest ih =>
      rw [splitAll, List.filter_append]
      cases s with
      | declare name => exact ih
      | function name parameters body => exact ih
      | loop condition body => exact allLeadOn_splitAll body
      | _ => rfl
  simp only [Script.returnsToStart, functions, loose]

end Ast.Stmt

/-! ### Functions -/

namespace Ast.Stmt

variable {negation : Prop}

mutual

theorem leadsOn_outline (s : Stmt Symbol False negation) : s.outline.leadsOn = s.leadsOn := by
  cases s with
  | define allowed name value => exact allowed.elim
  | ifElse condition ifTrue ifFalse =>
    simp only [outline, Outline.leadsOn, leadsOn, allLeadOn_outlineAll ifTrue,
      allLeadOn_outlineAll ifFalse]
  | _ => rfl

theorem allLeadOn_outlineAll (stmts : List (Stmt Symbol False negation)) :
    Outline.allLeadOn (outlineAll stmts) = allLeadOn stmts := by
  cases stmts with
  | nil => rfl
  | cons s rest =>
    have empty : (outlineAll rest).isEmpty = rest.isEmpty := by cases rest <;> rfl
    simp only [outlineAll, Outline.allLeadOn, allLeadOn, empty, leadsOn_outline s,
      allLeadOn_outlineAll rest]

end

private theorem startWithLoop_outlineAll (stmts : List (Stmt Symbol False negation)) :
    (outlineAll stmts).head?.any Outline.loopsBack = startWithLoop stmts := by
  cases stmts with
  | nil => rfl
  | cons s rest =>
    cases s with
    | define allowed name value => exact allowed.elim
    | loop condition body => exact allLeadOn_outlineAll body
    | _ => rfl

end Ast.Stmt

/-- Whether the body of a function starts with a loop that goes round, and no parameters are
received before it. -/
def FunDef.startsWithLoop {negation : Prop} (f : FunDef (Stmt Symbol False negation)) : Bool :=
  f.parameters.isEmpty && Stmt.startWithLoop f.body

private theorem Ast.Stmt.startWithLoop_ensureReturn (f : FunDef (Stmt Symbol False True)) :
    startWithLoop f.ensureReturn.body = startWithLoop f.body := by
  unfold FunDef.ensureReturn
  split
  · rfl
  · rw [FunDef.withBody]
    cases f.body <;> rfl

namespace Items

variable {script : Resolved} (sound : Stmt.allSound .topLevel script = true)
include sound

private theorem loose_ofScript :
    script.filter (fun s => (Item.ofStmt? s).isNone) = script.filter Stmt.isLoose := by
  refine List.filter_congr fun s member => ?_
  have own := Stmt.allSound_iff.mp sound s member
  cases s <;> simp_all [Item.ofStmt?, Stmt.isLoose, Stmt.isSound]

private theorem startsWithLoop_filterMap :
    (functions (script.filterMap Item.ofStmt?)).map FunDef.startsWithLoop =
      script.filterMap Stmt.returnsToStart? := by
  induction script with
  | nil => rfl
  | cons s rest ih =>
    simp only [Stmt.allSound, Bool.and_eq_true] at sound
    have others := ih sound.2
    cases s with
    | declare symbol =>
      have outside : symbol.isGlobal = true := by simpa [Stmt.isSound] using sound.1
      simpa [Item.ofStmt?, outside, List.filterMap_cons, Stmt.returnsToStart?] using others
    | function name parameters body =>
      have outside : name.isGlobal = true := by
        simp only [Stmt.isSound, Bool.and_eq_true] at sound
        simpa using sound.1.1
      simpa [Item.ofStmt?, outside, Stmt.returnsToStart?, FunDef.startsWithLoop] using others
    | define allowed name value => exact allowed.elim
    | _ => exact others

/-- The functions of a program in items are those of the program and that of its loose statements. -/
theorem startsWithLoop_ofScript :
    (ofScript script).functions.map FunDef.startsWithLoop = script.returnsToStart := by
  have items := startsWithLoop_filterMap sound
  simp only [functions] at items
  simp only [ofScript, functions, List.filterMap_append, List.map_append, items,
    loose_ofScript sound]
  rfl

end Items

/-! ### Blocks -/

private theorem Tac.targets_receives (parameters : List Symbol) :
    (receives parameters).flatMap Mark.targets = [] := by
  simp [receives, List.flatMap_assoc, Mark.targets]

/-- Whether one of some blocks in outline leads to the first of them. -/
def Sketch.leadToFirst? (blocks : List Sketch) : Option Bool :=
  blocks.head?.map fun first => blocks.any fun block => first.label ∈ block.targets

theorem Sketch.leadToFirst?_cons (first : Sketch) (rest : List Sketch) :
    leadToFirst? (first :: rest) =
      some (decide (∃ block ∈ first :: rest, first.label ∈ block.targets)) := by
  rw [leadToFirst?, List.head?_cons, Option.map_some, Option.some_inj, Bool.eq_iff_iff]
  simp only [List.any_eq_true, decide_eq_true_eq]

/-- Whether a block of a function leads to the first one, if there is a first one. -/
def FunDef.returnsToStart? (f : FunDef Tac.Block) : Option Bool :=
  f.body.head?.map fun first => f.body.any fun block => first.label ∈ block.targets

private theorem FunDef.leadToFirst?_sketch (f : FunDef Tac.Block) :
    Sketch.leadToFirst? (f.body.map Tac.Block.sketch) = f.returnsToStart? := by
  simp only [Sketch.leadToFirst?, returnsToStart?, List.head?_map, Option.map_map, List.any_map,
    Function.comp_def, Tac.Block.targets_sketch]
  rfl

namespace FunDef.Passage

variable {f : FunDef (Stmt Symbol False True)} {g : FunDef Tac.Block} (passage : f.Passage g)
include passage

private theorem loopsBack_grouped :
    (Stack.Nested.outlineAll Stack.Block.instrs passage.grouped).head?.any Outline.loopsBack =
      Stmt.startWithLoop f.body := by
  obtain ⟨labelled, straightened⟩ := passage.outlines
  rw [labelled, Stack.loopsBack_joinAllRuns, straightened, Stmt.startWithLoop_outlineAll,
    Stmt.startWithLoop_ensureReturn]

/-- Before arguments are received, a function comes back to its first block exactly if it starts with
a loop that goes round. -/
theorem leadToFirst?_linked : Sketch.leadToFirst? (passage.linked.map Stack.Block.sketch) =
    some (Stmt.startWithLoop f.body) := by
  obtain ⟨first, rest, blocks, returns⟩ :=
    Flow.linkFunction_returns_iff passage.links passage.isStraight passage.distinct
  dsimp only at blocks returns
  rw [loopsBack_grouped] at returns
  rw [blocks, List.map_cons, Sketch.leadToFirst?_cons, ← List.map_cons, ← blocks, Option.some_inj,
    Bool.eq_iff_iff, ← returns, decide_eq_true_eq]
  simp only [List.mem_map, exists_exists_and_eq_and, Stack.Block.targets_sketch]
  rfl

/-- A compiled function comes back to its first block exactly if it has no parameters and starts with
a loop that goes round. -/
theorem returnsToStart?_eq : g.returnsToStart? = some f.startsWithLoop := by
  rw [← g.leadToFirst?_sketch]
  rcases passage.receives with ⟨none, same⟩ | ⟨entry, first, rest, some, blocks, fresh, same⟩
  · rw [same, passage.leadToFirst?_linked]
    simp [startsWithLoop, none]
  · have away : ¬ ∃ block ∈ g.body.map Tac.Block.sketch, entry ∈ block.targets := by
      rw [same]
      rintro ⟨block, member, leads⟩
      rcases List.mem_cons.mp member with rfl | member
      · have target : entry = first.label := by
          simpa [Sketch.targets, Tac.targets_receives, Mark.targets] using leads
        exact fresh first (by simp [blocks]) target.symm
      · obtain ⟨own, inside, rfl⟩ := List.mem_map.mp member
        rw [Stack.Block.targets_sketch] at leads
        have graph := Flow.linkFunction_isGraph passage.links passage.isStraight
        obtain ⟨other, present, label⟩ := graph.targets own inside entry leads
        exact fresh other.sketch (List.mem_map_of_mem present) label
    rw [same, Sketch.leadToFirst?_cons, ← same, decide_eq_false away]
    simp [startsWithLoop, some]

end FunDef.Passage

/-- The functions of a compiled program that come back to their first block are those without
parameters that start with a loop that goes round. -/
theorem compiled_returnsToStart {script : Parsed} {options : Options} {compiled : Compiled}
    (done : (compile options script).result = .ok compiled) :
    compiled.program.functions.map FunDef.returnsToStart? = script.returnsToStart.map some := by
  obtain ⟨folded, resolved, fold, resolve, related⟩ := compile_passage done
  obtain ⟨⟨_, scope⟩, own, last⟩ := Success.result_bind_eq_ok.mp resolve
  cases last
  have start := Items.startsWithLoop_ofScript (Stmt.resolveAll_sound own)
  rw [Stmt.returnsToStart_sameFlow (Stmt.resolveAll_sameFlow own), Script.split,
    Stmt.returnsToStart_splitAll, Stmt.returnsToStart_sameFlow (Stmt.foldAll_sameFlow fold)] at start
  rw [← start, List.map_map, List.map_eq_flatMap, List.map_eq_flatMap]
  symm
  refine related.flatMap_functions _ _ fun f g ⟨passage⟩ => ?_
  rw [passage.returnsToStart?_eq]
  rfl

/-- Loops behind parameters, with a return at the end of each round, and at the start of the main
function. -/
theorem compiled_returnsToStart_loops :
    let source := "func f(n int) int \x7b while n < 3 \x7b n = n + 1; \x7d return n; \x7d" ++
      "func g() int \x7b while 1 < 2 \x7b return 2; \x7d return 3; \x7d" ++
      "while f(1) < g() \x7b print 1; \x7d"
    ∃ script compiled, frontEnd source = .ok script ∧ (compile {} script).result = .ok compiled ∧
      script.returnsToStart = [false, false, true] ∧
      compiled.program.functions.map FunDef.returnsToStart? = script.returnsToStart.map some := by
  intro source
  have run : ((frontEnd source).toOption.bind fun script =>
      (compile {} script).result.toOption.map fun _ => script.returnsToStart) =
      some [false, false, true] := by
    decide +kernel
  obtain ⟨script, compiled, accepted, done, starts⟩ := exists_compiled run
  exact ⟨script, compiled, accepted, done, starts, compiled_returnsToStart done⟩

/-- A program that is one loop jumps to the first block of its main function. -/
theorem first_block_is_target :
    let source := "while 1 < 2 \x7b print 1; \x7d"
    ∃ script compiled, frontEnd source = .ok script ∧ (compile {} script).result = .ok compiled ∧
      ∃ f ∈ compiled.program.functions, ∃ first rest, f.body = first :: rest ∧
        ∃ block ∈ f.body, first.label ∈ block.targets := by
  intro source
  have run : ((frontEnd source).toOption.bind fun script =>
      (compile {} script).result.toOption.map fun compiled => decide
        (∃ f ∈ compiled.program.functions, ∃ first ∈ f.body.head?,
          ∃ block ∈ f.body, first.label ∈ block.targets)) = some true := by
    decide +kernel
  obtain ⟨script, compiled, accepted, done, leads⟩ := exists_compiled run
  obtain ⟨f, member, first, isFirst, block, inside, target⟩ := of_decide_eq_true leads
  obtain ⟨rest, parts⟩ := List.head?_eq_some_iff.mp isFirst
  exact ⟨script, compiled, accepted, done, f, member, first, rest, parts, block, inside, target⟩

end Wabbit
