import Wabbit.Compiler
import Wabbit.Proofs.Lowering.Sound
import Wabbit.Proofs.Names.Slots
import Wabbit.Proofs.Tac.Progress

/-!
What can go wrong behind the resolution of names. Main statement: every step succeeds on every resolved
program, with one exception, a function inside of another one or of a block, which is told when control
flow is linked.
-/

namespace Wabbit

open Ast Stack

variable {negation : Prop}

/-! ### Blocks -/

/-- A block takes nothing from the stack that it has not put there, if no leaf does and every
condition leaves a value. -/
theorem Flow.Made.height_isSome {stmts : List (Nested Block)} {block : Block}
    (made : Made stmts block)
    (leaves : ∀ leaf ∈ Nested.allLeaves stmts, isLeafCode leaf.instrs = true)
    (conditions : ∀ condition ∈ Nested.allConditions stmts, condition.isTest = true) :
    (heightAfter 0 block.instrs).isSome = true := by
  cases made with
  | @leaf block inside next =>
    have known := (Bool.and_eq_true_iff.mp (leaves block inside)).2
    unfold closeBlock
    split
    · exact known
    · obtain ⟨height, known⟩ := Option.isSome_iff_exists.mp known
      have jump : heightAfter height [.goto next] = some height := rfl
      simp [heightAfter_append known jump]
  | test inside label ifTrue ifFalse =>
    have known := of_decide_eq_true (Bool.and_eq_true_iff.mp (conditions _ inside)).2
    have branch : heightAfter 1 [.branch ifTrue ifFalse] = some 0 := rfl
    simp [Flow.test, heightAfter_append known branch]
  | pass label next => rfl

namespace Items

/-- What is known of the functions of a program once its statements are lowered. -/
structure IsLowered (program : Items (Nested Straight)) : Prop where
  leaves : ∀ f ∈ program.functions, ∀ leaf ∈ Nested.allLeaves f.body, isLeafCode leaf = true
  conditions : ∀ f ∈ program.functions, ∀ condition ∈ Nested.allConditions f.body,
    condition.isTest = true
  closed : ∀ f ∈ program.functions, Nested.isClosed id f.body = true

namespace IsLowered

variable {program : Items (Nested Straight)} (lowered : program.IsLowered)
include lowered

/-- Linking succeeds if there is no function inside of another one, and fails because of one if there
are any. -/
theorem link_ends (l : Labelling) :
    Flow.Ends program.innerFunctions
      ((program.groupBlocks.run l).1.link.run (program.groupBlocks.run l).2) := by
  rw [← innerFunctions_groupBlocks program l]
  refine Items.link_ends (fun g member => ?_) _
  obtain ⟨f, inside, m, rfl⟩ := (related_groupBlocks program l).exists_left member
  rw [FunDef.withBody, labelAll_isClosed]
  exact joinAllRuns_isClosed (lowered.closed f inside)

private theorem generate_succeeds {l m l' : Labelling} {linked : Items Block}
    (done : (program.groupBlocks.run l).1.link.run m = .ok (linked, l')) :
    ∃ generated, linked.generate = .ok generated := by
  refine Items.generate_succeeds fun h member block inside => ?_
  obtain ⟨g, present, k, k', own⟩ := (related_mapFunctionsM done).exists_left member
  obtain ⟨f, known, k, rfl⟩ := (related_groupBlocks program l).exists_left present
  obtain ⟨-, linked, laid, rfl⟩ := Flow.linkFunction_laidOut own ⟨0⟩
  refine (laid.made block inside).height_isSome ?_ ?_
  · have joined := Nested.allLeaves_joinAllRuns (fun _ _ => isLeafCode_append)
      (lowered.leaves f known)
    rw [← Nested.allLeaves_labelAll _ k] at joined
    exact List.forall_mem_map.mp joined
  · rw [FunDef.withBody, Nested.allConditions_labelAll, Nested.allConditions_joinAllRuns]
    exact lowered.conditions f known

end IsLowered

/-! ### Statements -/

/-- Sound statements of a program can be lowered. -/
theorem lower_succeeds {program : Items (Stmt Symbol False negation)}
    (sound : ∀ f ∈ program.functions, Stmt.allSound .nested f.body = true) :
    ∃ plain straight, program.eliminateNegation = .ok plain ∧
      plain.lowerExpressions.lowerStatements = .ok straight ∧
      Items.Related (fun f g => List.Forall₂ Stmt.Lowers f.body g.body) program straight := by
  induction program with
  | nil => exact ⟨[], [], rfl, rfl, .nil⟩
  | cons item rest ih =>
    cases item with
    | global symbol =>
      obtain ⟨plain, straight, subtracted, straightened, related⟩ := ih sound
      refine ⟨.global symbol :: plain, .global symbol :: straight, ?_, ?_, .cons (.global _) related⟩
      · exact Success.bind_eq_ok.mpr ⟨plain, subtracted, rfl⟩
      · exact Success.bind_eq_ok.mpr ⟨straight, straightened, rfl⟩
    | function f =>
      obtain ⟨own, others⟩ := List.forall_mem_cons.mp sound
      obtain ⟨plain, straight, subtracted, straightened, related⟩ := ih others
      obtain ⟨body, body', subtracted', straightened', lowers⟩ := Stmt.lowerAll_succeeds own
      refine ⟨.function (f.withBody body) :: plain, .function (f.withBody body') :: straight, ?_, ?_,
        .cons (.function lowers) related⟩
      · exact Success.bind_eq_ok.mpr ⟨f.withBody body, Success.bind_eq_ok.mpr ⟨_, subtracted', rfl⟩,
          Success.bind_eq_ok.mpr ⟨plain, subtracted, rfl⟩⟩
      · exact Success.bind_eq_ok.mpr ⟨f.withBody body', Success.bind_eq_ok.mpr ⟨_, straightened', rfl⟩,
          Success.bind_eq_ok.mpr ⟨straight, straightened, rfl⟩⟩

end Items

/-! ### Functions inside of others -/

namespace Ast

variable {ν : Type} {initializers : Prop}

/-- The functions inside of a statement, apart from itself. -/
def Stmt.innerFunctions : Stmt ν initializers negation → List ν
  | .function _ _ body => Stmt.allFunctions body
  | s => s.functions

/-- The functions of a program that do not stand at its top level. -/
def Script.innerFunctions (script : Script ν initializers negation) : List ν :=
  script.flatMap Stmt.innerFunctions

namespace Stmt

theorem allFunctions_append (front back : List (Stmt ν initializers negation)) :
    allFunctions (front ++ back) = allFunctions front ++ allFunctions back := by
  induction front with
  | nil => rfl
  | cons s rest ih => simp [allFunctions, ih]

private theorem mem_allFunctions {name : ν} {stmts : List (Stmt ν initializers negation)} :
    name ∈ allFunctions stmts ↔ ∃ s ∈ stmts, name ∈ s.functions := by
  induction stmts with
  | nil => simp [allFunctions]
  | cons s rest ih => simp [allFunctions, ih]

theorem allSound_iff {depth : Depth} {stmts : List (Stmt Symbol False negation)} :
    allSound depth stmts = true ↔ ∀ s ∈ stmts, s.isSound depth = true := by
  induction stmts with
  | nil => simp [allSound]
  | cons s rest ih => simp [allSound, ih]

/-- A sound statement of the top level is an item, or it could stand in a function as well. -/
theorem isSound_topLevel_cases {s : Stmt Symbol False negation} (sound : s.isSound .topLevel = true) :
    (∃ symbol, s = .declare symbol ∧ Item.ofStmt? s = some (.global symbol)) ∨
    (∃ f : FunDef (Stmt Symbol False negation), s = .function f.name f.parameters f.body ∧
      Item.ofStmt? s = some (.function f) ∧ allSound .nested f.body = true) ∨
    (Item.ofStmt? s = none ∧ s.isSound .nested = true ∧ s.innerFunctions = s.functions) := by
  cases s with
  | declare symbol =>
    have outside : symbol.isGlobal = true := by simpa [isSound] using sound
    exact .inl ⟨symbol, rfl, by simp [Item.ofStmt?, outside]⟩
  | function name parameters body =>
    have outside : name.isGlobal = true ∧ allSound .nested body = true := by
      simpa [isSound] using sound
    exact .inr (.inl ⟨⟨name, parameters, body⟩, rfl, by simp [Item.ofStmt?, outside], outside.2⟩)
  | define allowed name value => exact allowed.elim
  | _ => exact .inr (.inr ⟨rfl, sound, rfl⟩)

end Stmt

end Ast

namespace Items

variable {script : Script Symbol False negation}

theorem mem_functions_ofScript {f : FunDef (Stmt Symbol False negation)} :
    f ∈ (ofScript script).functions ↔ (∃ s ∈ script, Item.ofStmt? s = some (.function f)) ∨
      f = ⟨.global entryPoint .integer, [], script.filter fun s => (Item.ofStmt? s).isNone⟩ := by
  simp only [ofScript, functions, List.filterMap_append, List.mem_append, List.mem_filterMap]
  refine or_congr ⟨?_, ?_⟩ (by simp [eq_comm])
  · rintro ⟨item, ⟨s, member, isItem⟩, isFunction⟩
    cases item <;> cases isFunction
    exact ⟨s, member, isItem⟩
  · rintro ⟨s, member, isItem⟩
    exact ⟨_, ⟨s, member, isItem⟩, rfl⟩

section Sound

variable (sound : Stmt.allSound .topLevel script = true)
include sound

/-- The functions of a program in items are made of sound statements. -/
theorem ofScript_sound : ∀ f ∈ (ofScript script).functions, Stmt.allSound .nested f.body = true := by
  intro f member
  rcases mem_functions_ofScript.mp member with ⟨s, inside, isItem⟩ | rfl
  · rcases Stmt.isSound_topLevel_cases (Stmt.allSound_iff.mp sound s inside) with
      ⟨symbol, -, other⟩ | ⟨g, -, other, fine⟩ | ⟨other, -⟩
    all_goals rw [isItem] at other; cases other
    exact fine
  · refine Stmt.allSound_iff.mpr fun s loose => ?_
    obtain ⟨inside, isLoose⟩ := List.mem_filter.mp loose
    rcases Stmt.isSound_topLevel_cases (Stmt.allSound_iff.mp sound s inside) with
      ⟨symbol, -, other⟩ | ⟨g, -, other, -⟩ | ⟨-, fine, -⟩
    · simp [other] at isLoose
    · simp [other] at isLoose
    · exact fine

/-- No function inside of another one is lost or found when loose statements move into a function. -/
theorem mem_innerFunctions_ofScript {name : Symbol} :
    name ∈ (ofScript script).functions.flatMap (fun f => Stmt.allFunctions f.body) ↔
      name ∈ script.innerFunctions := by
  simp only [List.mem_flatMap, Script.innerFunctions]
  constructor
  · rintro ⟨f, member, inner⟩
    rcases mem_functions_ofScript.mp member with ⟨s, inside, isItem⟩ | rfl
    · rw [Item.ofStmt?_function isItem] at inside
      exact ⟨_, inside, inner⟩
    · obtain ⟨s, loose, own⟩ := Stmt.mem_allFunctions.mp inner
      obtain ⟨inside, isLoose⟩ := List.mem_filter.mp loose
      rcases Stmt.isSound_topLevel_cases (Stmt.allSound_iff.mp sound s inside) with
        ⟨symbol, -, other⟩ | ⟨g, -, other, -⟩ | ⟨-, -, same⟩
      · simp [other] at isLoose
      · simp [other] at isLoose
      · exact ⟨s, inside, same ▸ own⟩
  · rintro ⟨s, inside, inner⟩
    rcases Stmt.isSound_topLevel_cases (Stmt.allSound_iff.mp sound s inside) with
      ⟨symbol, rfl, -⟩ | ⟨g, rfl, isItem, -⟩ | ⟨isLoose, -, same⟩
    · cases inner
    · exact ⟨g, mem_functions_ofScript.mpr (.inl ⟨_, inside, isItem⟩), inner⟩
    · refine ⟨_, mem_functions_ofScript.mpr (.inr rfl), Stmt.mem_allFunctions.mpr ⟨s, ?_, same ▸ inner⟩⟩
      exact List.mem_filter.mpr ⟨inside, by simp [isLoose]⟩

end Sound

/-- Functions are made to return in the end, and stay the same inside. -/
theorem ensureReturn_sound {f : FunDef (Stmt Symbol False negation)}
    (sound : Stmt.allSound .nested f.body = true) :
    Stmt.allSound .nested f.ensureReturn.body = true ∧
      f.ensureReturn.body.getLast?.any Stmt.isReturn = true := by
  unfold FunDef.ensureReturn
  split
  · rename_i returns
    exact ⟨sound, returns⟩
  · have zero : (Expr.zero f.name.kind : Expr Symbol negation).isKinded = true := by
      cases f.name.kind <;> rfl
    refine ⟨Stmt.allSound_iff.mpr (List.forall_mem_append.mpr ⟨Stmt.allSound_iff.mp sound, ?_⟩), ?_⟩
    · exact List.forall_mem_singleton.mpr zero
    · simp [FunDef.withBody, Stmt.isReturn]

private theorem allFunctions_ensureReturn (f : FunDef (Stmt Symbol False negation)) :
    Stmt.allFunctions f.ensureReturn.body = Stmt.allFunctions f.body := by
  unfold FunDef.ensureReturn
  split
  · rfl
  · rw [FunDef.withBody, Stmt.allFunctions_append]
    simp [Stmt.allFunctions, Stmt.functions]

/-- A program that is made of sound statements is lowered, with the same functions inside of others. -/
theorem ofScript_lowers (sound : Stmt.allSound .topLevel script = true) :
    ∃ plain straight, (ofScript script).ensureReturns.eliminateNegation = .ok plain ∧
      plain.lowerExpressions.lowerStatements = .ok straight ∧ straight.IsLowered ∧
      ∀ name, name ∈ straight.innerFunctions ↔ name ∈ script.innerFunctions := by
  have returns := related_mapFunctions FunDef.ensureReturn (ofScript script)
  have bodies : ∀ g ∈ (ofScript script).ensureReturns.functions,
      Stmt.allSound .nested g.body = true ∧ g.body.getLast?.any Stmt.isReturn = true := by
    intro g member
    obtain ⟨f, inside, rfl⟩ := returns.exists_left member
    exact ensureReturn_sound (ofScript_sound sound f inside)
  obtain ⟨plain, straight, subtracted, straightened, lowers⟩ :=
    lower_succeeds fun g member => (bodies g member).1
  refine ⟨plain, straight, subtracted, straightened, ⟨?_, ?_, ?_⟩, fun name => ?_⟩
  · intro h member
    obtain ⟨g, -, all⟩ := lowers.exists_left member
    exact Stmt.allLeaves_lowers all
  · intro h member
    obtain ⟨g, -, all⟩ := lowers.exists_left member
    exact Stmt.allConditions_lowers all
  · intro h member
    obtain ⟨g, inside, all⟩ := lowers.exists_left member
    exact Stmt.isClosed_lowers all (bodies g inside).2
  · have kept := returns.flatMap_functions (fun f => Stmt.allFunctions f.body)
      (fun g => Stmt.allFunctions g.body) (by
        rintro f g rfl
        exact (allFunctions_ensureReturn f).symm)
    have same := lowers.flatMap_functions (fun g => Stmt.allFunctions g.body)
      (fun h => Nested.allFunctions h.body) fun g h all => (Stmt.allFunctions_lowers all).symm
    rw [← mem_innerFunctions_ofScript sound, kept, innerFunctions, ← same]
    rfl

end Items

/-- Behind the resolution of names everything up to the linking of control flow succeeds. Linking and
what follows it succeed exactly if no function stands inside of another one or of a block; if one
does, linking fails because of such a function. -/
theorem Ast.Script.lowering_succeeds_iff {script : Split} {resolved : Resolved}
    (done : script.resolve.result = .ok resolved) (l : Labelling) :
    ∃ plain straight, (Items.ofScript resolved).ensureReturns.eliminateNegation = .ok plain ∧
      plain.lowerExpressions.lowerStatements = .ok straight ∧
      let linking := (straight.groupBlocks.run l).1.link.run (straight.groupBlocks.run l).2
      ((∃ linked l' generated, linking = .ok (linked, l') ∧ linked.generate = .ok generated) ↔
        resolved.innerFunctions = []) ∧
      (resolved.innerFunctions ≠ [] → ∃ name ∈ resolved.innerFunctions,
        linking = .error (.innerFunction name.text) ∧ ∀ labels,
          (CompileError.innerFunction name.text).diagnostic labels = CompileError.unresolved
            Stage.flow.name ("the nested function `" ++ name.text ++ "`")) := by
  obtain ⟨⟨_, scope⟩, own, last⟩ := Success.result_bind_eq_ok.mp done
  cases last
  obtain ⟨plain, straight, subtracted, straightened, lowered, same⟩ :=
    Items.ofScript_lowers (Stmt.resolveAll_sound own)
  refine ⟨plain, straight, subtracted, straightened, ?_⟩
  rcases lowered.link_ends l with ⟨⟨linked, l'⟩, linking⟩ | ⟨name, inside, linking⟩
  · have none : innerFunctions resolved = [] := by
      refine List.eq_nil_iff_forall_not_mem.mpr fun name member => ?_
      have inside := (same name).mpr member
      rw [← Items.innerFunctions_groupBlocks straight l, Items.innerFunctions_of_link linking] at inside
      cases inside
    obtain ⟨generated, generates⟩ := lowered.generate_succeeds linking
    exact ⟨⟨fun _ => none, fun _ => ⟨linked, l', generated, linking, generates⟩⟩,
      fun some => absurd none some⟩
  · have member := (same name).mp inside
    refine ⟨⟨?_, ?_⟩, fun _ => ⟨name, member, linking, fun labels => rfl⟩⟩
    · rintro ⟨linked, l', generated, other, -⟩
      rw [linking] at other
      cases other
    · intro none
      rw [none] at member
      cases member

/-- A loop with a declaration, a negation and a value that is left behind, inside and outside of a
function, and the same program with a function in a branch. -/
theorem Ast.Script.lowering_succeeds_iff_nested :
    let x : Name := ⟨"x", .integer⟩
    let isSmall : Condition Name True := ⟨.less, .name x, .float .zero⟩
    let round : Stmt Name False True :=
      .loop isSmall [.declare x, .assign x (.neg trivial (.name x)), .eval (.name x)]
    let flat : Split := [round, .function ⟨"f", .float⟩ [x, x] [round]]
    let nested : Split := .ifElse isSmall [] [.function ⟨"g", .integer⟩ [] []] :: flat
    (∃ resolved plain straight linked l' generated, flat.resolve.result = .ok resolved ∧
      resolved.innerFunctions = [] ∧
      (Items.ofScript resolved).ensureReturns.eliminateNegation = .ok plain ∧
      plain.lowerExpressions.lowerStatements = .ok straight ∧
      (straight.groupBlocks.run {}).1.link.run (straight.groupBlocks.run {}).2 = .ok (linked, l') ∧
      linked.generate = .ok generated) ∧
    ∃ resolved plain straight, nested.resolve.result = .ok resolved ∧
      resolved.innerFunctions = [.stack "g" .integer] ∧
      (Items.ofScript resolved).ensureReturns.eliminateNegation = .ok plain ∧
      plain.lowerExpressions.lowerStatements = .ok straight ∧
      (straight.groupBlocks.run {}).1.link.run (straight.groupBlocks.run {}).2 =
        .error (.innerFunction "g") := by
  intro x isSmall round flat nested
  have none : flat.resolve.result.toOption.map innerFunctions = some [] := by decide +kernel
  have one : nested.resolve.result.toOption.map innerFunctions = some [.stack "g" .integer] := by
    decide +kernel
  constructor
  · obtain ⟨resolved, done, none⟩ := Option.map_eq_some_iff.mp none
    have done := Success.toOption_eq_some.mp done
    obtain ⟨plain, straight, subtracted, straightened, outcome, -⟩ := lowering_succeeds_iff done {}
    obtain ⟨linked, l', generated, linking, generates⟩ := outcome.mpr none
    exact ⟨resolved, plain, straight, linked, l', generated, done, none, subtracted, straightened,
      linking, generates⟩
  · obtain ⟨resolved, done, one⟩ := Option.map_eq_some_iff.mp one
    have done := Success.toOption_eq_some.mp done
    obtain ⟨plain, straight, subtracted, straightened, -, outcome⟩ := lowering_succeeds_iff done {}
    obtain ⟨name, member, linking, -⟩ := outcome (by simp [one])
    rw [one] at member
    cases List.mem_singleton.mp member
    exact ⟨resolved, plain, straight, done, one, subtracted, straightened, linking⟩

end Wabbit
