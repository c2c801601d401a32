import Wabbit.Proofs.Kinds.Scopes
import Wabbit.Proofs.Names.Scoping
import Wabbit.Proofs.References.Blocks

/-!
Programs with what their names refer to in place of the names. Names are bound by blocks, whatever
their kinds are, so every program has such a form; where the compiler resolves names, it finds the
same. Main statement: a compiled program consists of the global variables and functions that the
bound program defines, with the same headers, and its references are those of the bound program.
-/

namespace Wabbit

open Ast

theorem forall_mem_filterMap_cons {α β : Type} {f : α → Option β} {a : α} {rest : List α}
    {p : β → Prop} :
    (∀ b ∈ (a :: rest).filterMap f, p b) ↔ (∀ b ∈ f a, p b) ∧ ∀ b ∈ rest.filterMap f, p b := by
  rw [List.filterMap_cons]
  cases f a <;> simp

/-- Something that a program defines: a global variable, or a function with its header. -/
inductive Export where
  | global (name : Name)
  | function (header : Header)
  deriving DecidableEq, Repr

/-- What an item defines. -/
def Item.exported {β : Type} : Item β → Export
  | global symbol => .global symbol.name
  | function f => .function f.header

/-- What a program in items defines. -/
def Items.exports {β : Type} (program : Items β) : List Export := program.map Item.exported

namespace Ast

/-! ### Bound programs -/

namespace Stmt

variable {initializers negation : Prop}

mutual

/-- The statement with what its names refer to, and the scope behind it. A declaration is visible in
its own value. -/
def bound (scope : Scope) (depth : Depth) :
    Stmt Name initializers negation → Stmt Symbol initializers negation × Scope
  | declare name => (.declare (scope.declare depth name).1, (scope.declare depth name).2)
  | define allowed name value =>
    let inner := (scope.declare depth name).2
    (.define allowed (scope.declare depth name).1 (value.rename inner.visible.binding), inner)
  | assign name value =>
    (.assign (scope.visible.binding name) (value.rename scope.visible.binding), scope)
  | print value => (.print (value.rename scope.visible.binding), scope)
  | ifElse condition ifTrue ifFalse =>
    let first := allBound scope .nested ifTrue
    let second := allBound (scope.leave first.2) .nested ifFalse
    (.ifElse (condition.rename scope.visible.binding) first.1 second.1,
      (scope.leave first.2).leave second.2)
  | loop condition body =>
    let round := allBound scope .nested body
    (.loop (condition.rename scope.visible.binding) round.1, scope.leave round.2)
  | function name parameters body =>
    let behind := (scope.declare depth name).2
    let inner := ({ behind with slots := [] } : Scope).declareAll parameters
    (.function (scope.declare depth name).1 inner.1 (allBound inner.2 .nested body).1, behind)
  | ret value => (.ret (value.rename scope.visible.binding), scope)
  | eval value => (.eval (value.rename scope.visible.binding), scope)

def allBound (scope : Scope) (depth : Depth) :
    List (Stmt Name initializers negation) → List (Stmt Symbol initializers negation) × Scope
  | [] => ([], scope)
  | s :: rest =>
    let first := s.bound scope depth
    let others := allBound first.2 depth rest
    (first.1 :: others.1, others.2)

end

/-- What a statement of the top level defines. -/
def export? : Stmt Symbol initializers negation → Option Export
  | declare symbol | define _ symbol _ => some (.global symbol.name)
  | function name parameters _ =>
    some (.function ⟨name.text, parameters.map Symbol.kind, name.kind⟩)
  | _ => none

end Stmt

namespace Script

variable {initializers negation : Prop}

/-- The program with what its names refer to in place of them. -/
def bound (script : Script Name initializers negation) : Script Symbol initializers negation :=
  (Stmt.allBound {} .topLevel script).1

/-- What a program defines, with the function that the loose statements move into. -/
def exports (script : Script Symbol initializers negation) : List Export :=
  script.filterMap Stmt.export? ++ [.function ⟨Items.entryPoint, [], .integer⟩]

/-- What a program refers to. -/
def references (script : Script Symbol initializers negation) : List Reference :=
  Stmt.allReferences script

end Script

/-! ### Folding -/

namespace Expr

variable {ν : Type} {negation : Prop} (f : ν → Symbol)

private theorem references_foldNeg (allowed : negation) (e : Expr ν negation) :
    ((e.foldNeg allowed).rename f).kind = (e.rename f).kind ∧
      ((e.foldNeg allowed).rename f).references = (e.rename f).references := by
  unfold foldNeg
  split
  · split <;> exact ⟨rfl, rfl⟩
  · exact ⟨rfl, rfl⟩
  · exact ⟨rfl, rfl⟩

/-- Only literals amount to a literal, and they have no references. -/
theorem references_literal? {op : Arithmetic} {left right e : Expr ν negation}
    (folded : literal? op left right = some e) :
    (e.rename f).kind = (left.rename f).kind ∧
      (e.rename f).references = (left.rename f).references ++ (right.rename f).references := by
  unfold literal? at folded
  split at folded
  · obtain ⟨value, -, rfl⟩ := Option.map_eq_some_iff.mp folded
    exact ⟨rfl, rfl⟩
  · cases folded
    exact ⟨rfl, rfl⟩
  · cases folded

mutual

/-- Folding changes neither kinds nor references, whatever the names stand for. -/
theorem references_folded (e : Expr ν negation) :
    (e.folded.rename f).kind = (e.rename f).kind ∧
      (e.folded.rename f).references = (e.rename f).references := by
  cases e with
  | arith op left right =>
    obtain ⟨kind, left_same⟩ := references_folded left
    obtain ⟨-, right_same⟩ := references_folded right
    rw [folded]
    cases amounts : literal? op left.folded right.folded with
    | none =>
      exact ⟨kind, by simp only [Option.getD_none, rename, references, left_same, right_same]⟩
    | some literal =>
      obtain ⟨own, none⟩ := references_literal? f amounts
      refine ⟨own.trans kind, ?_⟩
      rw [Option.getD_some, none, left_same, right_same, rename, references]
  | compare op left right =>
    obtain ⟨kind, left_same⟩ := references_folded left
    obtain ⟨kind', right_same⟩ := references_folded right
    simp only [folded, rename, Expr.kind, references, kind, kind', left_same, right_same, and_self]
  | call function arguments =>
    obtain ⟨kinds, same⟩ := allReferences_allFolded arguments
    simp only [folded, rename, Expr.kind, references, kinds, same, and_self]
  | neg allowed inner =>
    obtain ⟨kind, same⟩ := references_folded inner
    obtain ⟨kind', same'⟩ := references_foldNeg f allowed inner.folded
    exact ⟨kind'.trans kind, same'.trans same⟩
  | _ => exact ⟨rfl, rfl⟩

theorem allReferences_allFolded (es : List (Expr ν negation)) :
    (renameAll f (allFolded es)).map Expr.kind = (renameAll f es).map Expr.kind ∧
      allReferences (renameAll f (allFolded es)) = allReferences (renameAll f es) := by
  cases es with
  | nil => exact ⟨rfl, rfl⟩
  | cons e rest =>
    obtain ⟨kind, same⟩ := references_folded e
    obtain ⟨kinds, same'⟩ := allReferences_allFolded rest
    simp only [allFolded, renameAll, List.map_cons, allReferences, kind, kinds, same, same', and_self]

end

end Expr

private theorem Condition.references_map_folded {ν : Type} {negation : Prop} (f : ν → Symbol)
    (condition : Condition ν negation) :
    ((condition.map Expr.folded).rename f).toExpr.references =
      (condition.rename f).toExpr.references :=
  (Expr.references_folded f condition.toExpr).2

namespace Stmt

variable {initializers negation : Prop}

/-- The statements define the same, refer to the same, have the same functions inside them, and lead
to the same scope. -/
structure BoundAlike (out out' : Stmt Symbol initializers negation × Scope) : Prop where
  exported : out'.1.export? = out.1.export?
  references : out'.1.references = out.1.references
  functions : out'.1.functions = out.1.functions
  inner : out'.1.innerFunctions = out.1.innerFunctions
  scope : out'.2 = out.2

structure AllBoundAlike (out out' : List (Stmt Symbol initializers negation) × Scope) : Prop where
  exports : out'.1.filterMap export? = out.1.filterMap export?
  references : allReferences out'.1 = allReferences out.1
  functions : allFunctions out'.1 = allFunctions out.1
  inner : out'.1.flatMap innerFunctions = out.1.flatMap innerFunctions
  scope : out'.2 = out.2

mutual

/-- Folding leaves what a statement defines and refers to. -/
theorem bound_mapExprs_folded (s : Stmt Name initializers negation) (scope : Scope) (depth : Depth) :
    BoundAlike (s.bound scope depth) ((s.mapExprs Expr.folded).bound scope depth) := by
  cases s with
  | declare name => exact ⟨rfl, rfl, rfl, rfl, rfl⟩
  | ifElse condition ifTrue ifFalse =>
    have left := allBound_mapAllExprs_folded ifTrue scope .nested
    have right := allBound_mapAllExprs_folded ifFalse
      (scope.leave (allBound scope .nested ifTrue).2) .nested
    have inside :
        (((Stmt.ifElse condition ifTrue ifFalse).mapExprs Expr.folded).bound scope depth).1.functions =
          ((Stmt.ifElse condition ifTrue ifFalse).bound scope depth).1.functions := by
      simp only [mapExprs, bound, functions, left.functions, left.scope, right.functions]
    refine ⟨rfl, ?_, inside, inside, ?_⟩
    · simp only [mapExprs, bound, references, Condition.references_map_folded, left.references,
        left.scope, right.references]
    · simp only [mapExprs, bound, left.scope, right.scope]
  | loop condition body =>
    have inner := allBound_mapAllExprs_folded body scope .nested
    refine ⟨rfl, ?_, inner.functions, inner.functions, ?_⟩
    · simp only [mapExprs, bound, references, Condition.references_map_folded, inner.references]
    · simp only [mapExprs, bound, inner.scope]
  | function name parameters body =>
    have inner := allBound_mapAllExprs_folded body
      (({ (scope.declare depth name).2 with slots := [] } : Scope).declareAll parameters).2 .nested
    exact ⟨rfl, inner.references, congrArg (_ :: ·) inner.functions, inner.functions, rfl⟩
  | _ =>
    refine ⟨rfl, ?_, rfl, rfl, rfl⟩
    simp only [mapExprs, bound, references, Expr.references_folded]

theorem allBound_mapAllExprs_folded (stmts : List (Stmt Name initializers negation)) (scope : Scope)
    (depth : Depth) :
    AllBoundAlike (allBound scope depth stmts)
      (allBound scope depth (mapAllExprs Expr.folded stmts)) := by
  cases stmts with
  | nil => exact ⟨rfl, rfl, rfl, rfl, rfl⟩
  | cons s rest =>
    have first := bound_mapExprs_folded s scope depth
    have second := allBound_mapAllExprs_folded rest (s.bound scope depth).2 depth
    simp only [mapAllExprs, allBound, first.scope]
    exact
      { exports := by simp only [List.filterMap_cons, first.exported, second.exports]
        references := congrArg₂ (· ++ ·) first.references second.references
        functions := congrArg₂ (· ++ ·) first.functions second.functions
        inner := by simp only [List.flatMap_cons, first.inner, second.inner]
        scope := second.scope }

end

private theorem allBound_foldAll {stmts stmts' : List (Stmt Name initializers negation)}
    (done : foldAll stmts = .ok stmts') (scope : Scope) (depth : Depth) :
    AllBoundAlike (allBound scope depth stmts) (allBound scope depth stmts') := by
  obtain ⟨-, rfl⟩ := foldAll_eq_ok_iff.mp done
  exact allBound_mapAllExprs_folded stmts scope depth

end Stmt

/-! ### Splitting and resolution -/

/-- A declaration changes what its own name refers to and nothing else. -/
theorem Scope.binding_declare {scope : Scope} {depth : Depth}
    (outside : depth = .topLevel → scope.locals = []) (name other : Name) :
    (scope.declare depth name).2.visible.binding other =
      if other.text = name.text then (scope.declare depth name).1
      else scope.visible.binding other := by
  rw [visible_declare]
  cases depth with
  | topLevel => exact Visible.binding_declare_topLevel (outside rfl) ..
  | nested => exact Visible.binding_declare ..

theorem Condition.resolve_eq_rename {negation : Prop} {scope : Scope}
    {condition : Condition Name negation} {condition' : Condition Symbol negation}
    (done : (condition.resolve scope).result = .ok condition') :
    condition' = condition.rename scope.visible.binding := by
  simp only [resolve, Success.result_bind_eq_ok] at done
  obtain ⟨left, first, right, second, last⟩ := done
  cases last
  rw [Expr.resolve_eq_rename first, Expr.resolve_eq_rename second]
  rfl

namespace Stmt

variable {initializers negation : Prop}

theorem locals_bound {s : Stmt Name initializers negation} {scope : Scope} {depth : Depth}
    (outside : depth = .topLevel → scope.locals = []) :
    depth = .topLevel → (s.bound scope depth).2.locals = [] := by
  rintro rfl
  cases s <;> exact outside rfl

theorem kinds_bound {s : Stmt Name initializers negation} {scope : Scope} {depth : Depth}
    (outside : depth = .topLevel → scope.locals = []) :
    (s.bound scope depth).2.kinds = s.kindsBehind scope.kinds := by
  cases s with
  | declare name | define _ name _ | function name _ _ => exact Scope.kinds_declare outside name
  | _ => rfl

/-- Whether some statements that are taken apart and resolved come out as if they were bound and then
taken apart. -/
def SplitsBound (stmts : List (Stmt Name initializers negation)) : Prop :=
  ∀ (scope : Scope) (depth : Depth) (out : List (Stmt Symbol False negation) × Scope),
    (resolveAll scope depth (splitAll stmts)).result = .ok out →
    (depth = .topLevel → scope.locals = []) →
    out = (splitAll (allBound scope depth stmts).1, (allBound scope depth stmts).2)

section Splitting

variable {scope : Scope} {depth : Depth} {out : List (Stmt Symbol False negation) × Scope}

private theorem SplitsBound.nested {stmts : List (Stmt Name initializers negation)}
    (splits : SplitsBound stmts)
    (done : (resolveAll scope .nested (splitAll stmts)).result = .ok out) :
    out = (splitAll (allBound scope .nested stmts).1, (allBound scope .nested stmts).2) := by
  refine splits scope .nested out done fun top => ?_
  cases top

/-- A declaration is visible in its own value, when it is taken apart and when it is not. -/
theorem resolve_split_define {allowed : initializers} {name : Name} {value : Expr Name negation}
    (done : (resolveAll scope depth (define allowed name value).split).result = .ok out)
    (outside : depth = .topLevel → scope.locals = []) :
    out = (((define allowed name value).bound scope depth).1.split,
      ((define allowed name value).bound scope depth).2) := by
  obtain ⟨s₁, rest, middle, behind, first, others, rfl⟩ := resolveAll_cons done
  obtain ⟨s₂, behind', second, parts⟩ := resolveAll_singleton others
  cases parts
  cases resolve_inv first
  cases second with
  | assign target own =>
    cases (Scope.result_lookup _ name).symm.trans target
    rw [Expr.resolve_eq_rename own, Scope.binding_declare outside, if_pos rfl]
    rfl

private theorem resolve_split_ifElse {condition : Condition Name negation}
    {ifTrue ifFalse : List (Stmt Name initializers negation)} (inTrue : SplitsBound ifTrue)
    (inFalse : SplitsBound ifFalse)
    (done : (resolveAll scope depth (ifElse condition ifTrue ifFalse).split).result = .ok out) :
    out = (((ifElse condition ifTrue ifFalse).bound scope depth).1.split,
      ((ifElse condition ifTrue ifFalse).bound scope depth).2) := by
  obtain ⟨s', behind, round, rfl⟩ := resolveAll_singleton done
  cases round with
  | ifElse test first second =>
    cases inTrue.nested first
    cases inFalse.nested second
    rw [Condition.resolve_eq_rename test]
    rfl

private theorem resolve_split_loop {condition : Condition Name negation}
    {body : List (Stmt Name initializers negation)} (inside : SplitsBound body)
    (done : (resolveAll scope depth (loop condition body).split).result = .ok out) :
    out = (((loop condition body).bound scope depth).1.split,
      ((loop condition body).bound scope depth).2) := by
  obtain ⟨s', behind, round, rfl⟩ := resolveAll_singleton done
  cases round with
  | loop test inner =>
    cases inside.nested inner
    rw [Condition.resolve_eq_rename test]
    rfl

private theorem resolve_split_function {name : Name} {parameters : List Name}
    {body : List (Stmt Name initializers negation)} (inside : SplitsBound body)
    (done : (resolveAll scope depth (function name parameters body).split).result = .ok out) :
    out = (((function name parameters body).bound scope depth).1.split,
      ((function name parameters body).bound scope depth).2) := by
  obtain ⟨s', behind, round, rfl⟩ := resolveAll_singleton done
  cases round with
  | function inner =>
    cases inside.nested inner
    rfl

end Splitting

mutual

/-- A statement that is taken apart and resolved comes out as if it were bound and then taken apart. -/
theorem resolve_split {s : Stmt Name initializers negation} {scope : Scope} {depth : Depth}
    {out : List (Stmt Symbol False negation) × Scope}
    (done : (resolveAll scope depth s.split).result = .ok out)
    (outside : depth = .topLevel → scope.locals = []) :
    out = ((s.bound scope depth).1.split, (s.bound scope depth).2) := by
  cases s with
  | define allowed name value => exact resolve_split_define done outside
  | declare name =>
    cases done
    rfl
  | assign name value =>
    obtain ⟨s', behind, round, rfl⟩ := resolveAll_singleton done
    cases round with
    | assign target own =>
      cases (scope.result_lookup name).symm.trans target
      rw [Expr.resolve_eq_rename own]
      rfl
  | print value | ret value | eval value =>
    obtain ⟨s', behind, round, rfl⟩ := resolveAll_singleton done
    cases round
    rename_i own
    rw [Expr.resolve_eq_rename own]
    rfl
  | ifElse condition ifTrue ifFalse =>
    exact resolve_split_ifElse (resolveAll_splitAll ifTrue) (resolveAll_splitAll ifFalse) done
  | loop condition body => exact resolve_split_loop (resolveAll_splitAll body) done
  | function name parameters body => exact resolve_split_function (resolveAll_splitAll body) done

theorem resolveAll_splitAll (stmts : List (Stmt Name initializers negation)) :
    SplitsBound stmts := by
  intro scope depth out done outside
  cases stmts with
  | nil =>
    cases done
    rfl
  | cons s rest =>
    obtain ⟨front, back, middle, behind, -, first, second, rfl⟩ := resolveAll_append done
    cases resolve_split first outside
    cases resolveAll_splitAll rest _ _ _ second (locals_bound outside)
    rfl

end

mutual

theorem references_split (s : Stmt Symbol initializers negation) :
    allReferences s.split = s.references ∧ allFunctions s.split = s.functions := by
  cases s with
  | ifElse condition ifTrue ifFalse =>
    simp [split, references, allReferences, functions, allFunctions, references_splitAll ifTrue,
      references_splitAll ifFalse]
  | loop condition body | function name parameters body =>
    simp [split, references, allReferences, functions, allFunctions, references_splitAll body]
  | _ => simp [split, references, allReferences, functions, allFunctions]

/-- Taking declarations apart changes neither the references nor the functions of statements. -/
theorem references_splitAll (stmts : List (Stmt Symbol initializers negation)) :
    allReferences (splitAll stmts) = allReferences stmts ∧
      allFunctions (splitAll stmts) = allFunctions stmts := by
  cases stmts with
  | nil => exact ⟨rfl, rfl⟩
  | cons s rest =>
    obtain ⟨own, within⟩ := references_split s
    obtain ⟨others, within'⟩ := references_splitAll rest
    constructor
    · rw [allReferences_eq_flatMap] at own others
      rw [splitAll, allReferences_eq_flatMap, List.flatMap_append, own, others, allReferences]
    · rw [splitAll, allFunctions_append, within, within', allFunctions]

end

private theorem innerFunctions_splitAll (stmts : List (Stmt Symbol initializers negation)) :
    (splitAll stmts).flatMap innerFunctions = stmts.flatMap innerFunctions := by
  induction stmts with
  | nil => rfl
  | cons s rest ih =>
    have own : s.split.flatMap innerFunctions = s.innerFunctions := by
      cases s with
      | function name parameters body =>
        simp [split, innerFunctions, (references_splitAll body).2]
      | ifElse condition ifTrue ifFalse =>
        simp [split, innerFunctions, functions, (references_splitAll ifTrue).2,
          (references_splitAll ifFalse).2]
      | loop condition body =>
        simp [split, innerFunctions, functions, (references_splitAll body).2]
      | _ => rfl
    rw [splitAll, List.flatMap_append, own, ih, List.flatMap_cons]

/-- Once a statement of the top level is bound and taken apart, its items are what it defines. -/
theorem exported_split (s : Stmt Name initializers negation) (scope : Scope) :
    ((s.bound scope .topLevel).1.split.filterMap Item.ofStmt?).map Item.exported =
      (s.bound scope .topLevel).1.export?.toList := by
  cases s <;> rfl

private theorem exported_splitAll (stmts : List (Stmt Name initializers negation)) (scope : Scope) :
    ((splitAll (allBound scope .topLevel stmts).1).filterMap Item.ofStmt?).map Item.exported =
      (allBound scope .topLevel stmts).1.filterMap export? := by
  induction stmts generalizing scope with
  | nil => rfl
  | cons s rest ih =>
    have own := exported_split s scope
    simp only [allBound, splitAll, List.filterMap_append, List.map_append, own, ih,
      List.filterMap_cons]
    cases (s.bound scope .topLevel).1.export? <;> rfl

end Stmt

end Ast

/-! ### Compiled programs -/

private theorem Item.ofStmt?_global {negation : Prop} {s : Stmt Symbol False negation} {symbol : Symbol}
    (isItem : ofStmt? s = some (.global symbol)) : s = .declare symbol := by
  cases s <;> simp only [ofStmt?, reduceCtorEq] at isItem <;> split at isItem <;> cases isItem
  rfl

namespace Items

private theorem Related.exports {β γ : Type} {program : Items β} {program' : Items γ}
    (all : Items.Related (fun f g => g.header = f.header) program program') :
    program'.exports = program.exports := by
  induction all with
  | nil => rfl
  | cons first _ ih =>
    cases first with
    | global symbol => exact congrArg (Export.global symbol.name :: ·) ih
    | function same => exact congrArg₂ (Export.function · :: ·) same ih

/-- No reference is lost or found when loose statements move into a function. -/
theorem mem_references_ofScript {negation : Prop} {script : Script Symbol False negation}
    {reference : Reference} :
    reference ∈ (ofScript script).functions.flatMap (fun f => Stmt.allReferences f.body) ↔
      reference ∈ script.references := by
  rw [Script.references, Stmt.allReferences_eq_flatMap, List.mem_flatMap, List.mem_flatMap]
  constructor
  · rintro ⟨f, member, inside⟩
    rcases mem_functions_ofScript.mp member with ⟨s, here, isItem⟩ | rfl
    · rw [Item.ofStmt?_function isItem] at here
      exact ⟨_, here, inside⟩
    · rw [Stmt.allReferences_eq_flatMap] at inside
      obtain ⟨s, loose, own⟩ := List.mem_flatMap.mp inside
      exact ⟨s, (List.mem_filter.mp loose).1, own⟩
  · rintro ⟨s, here, own⟩
    cases isItem : Item.ofStmt? s with
    | none =>
      refine ⟨_, mem_functions_ofScript.mpr (.inr rfl), ?_⟩
      rw [Stmt.allReferences_eq_flatMap]
      exact List.mem_flatMap.mpr ⟨s, List.mem_filter.mpr ⟨here, by simp [isItem]⟩, own⟩
    | some item =>
      cases item with
      | global symbol =>
        rw [Item.ofStmt?_global isItem] at own
        cases own
      | function f =>
        have inside := mem_functions_ofScript.mpr (.inl ⟨s, here, isItem⟩)
        rw [Item.ofStmt?_function isItem] at own
        exact ⟨f, inside, own⟩

end Items

/-- A compiled program defines and refers to what the resolved program does, and all functions stand
at the top level. -/
theorem compile_resolved {options : Options} {script : Parsed} {compiled : Compiled}
    (done : (compile options script).result = .ok compiled) :
    ∃ folded resolved, script.fold = .ok folded ∧ folded.split.resolve.result = .ok resolved ∧
      compiled.program.exports = (Items.ofScript resolved).exports ∧
      (∀ reference, reference ∈ compiled.program.references ↔ reference ∈ resolved.references) ∧
      (Items.ofScript resolved).functions.flatMap (fun f => Stmt.allFunctions f.body) = [] := by
  obtain ⟨folded, resolved, fold, resolve, related⟩ := compile_becomes done
  refine ⟨folded, resolved, fold, resolve, ?_, fun reference => ?_, ?_⟩
  · exact (related.imp fun _ _ _ _ both => both.header).exports
  · have same := related.flatMap_functions (fun f => Stmt.allReferences f.body)
      (fun g => Tac.blockReferences g.body) fun _ _ both => both.references.symm
    rw [Items.references, ← same, Items.mem_references_ofScript]
  · have same := related.flatMap_functions (fun f => Stmt.allFunctions f.body)
      (fun _ => ([] : List Symbol)) fun _ _ both => both.alone
    rw [same]
    simp

/-- A compiled program defines and refers to what the bound program does, and all functions stand at
the top level. -/
theorem compile_bound {options : Options} {script : Parsed} {compiled : Compiled}
    (done : (compile options script).result = .ok compiled) :
    compiled.program.exports = script.bound.exports ∧
      (∀ reference, reference ∈ compiled.program.references ↔
        reference ∈ script.bound.references) ∧
      script.bound.innerFunctions = [] := by
  obtain ⟨folded, resolved, fold, resolve, exports, references, alone⟩ := compile_resolved done
  obtain ⟨⟨_, scope⟩, own, last⟩ := Success.result_bind_eq_ok.mp resolve
  cases last
  have sound := Stmt.resolveAll_sound own
  cases Stmt.resolveAll_splitAll _ _ _ _ own fun _ => rfl
  have alike := Stmt.allBound_foldAll fold {} .topLevel
  refine ⟨?_, fun reference => ?_, ?_⟩
  · rw [exports, Items.exports, Items.ofScript, List.map_append, Stmt.exported_splitAll,
      alike.exports]
    rfl
  · rw [references, Script.references, (Stmt.references_splitAll _).1, alike.references]
    rfl
  · have none : Script.innerFunctions (Stmt.splitAll (Stmt.allBound {} .topLevel folded).1) = [] := by
      refine List.eq_nil_iff_forall_not_mem.mpr fun name member => ?_
      have inside := (Items.mem_innerFunctions_ofScript sound).mpr member
      rw [alone] at inside
      cases inside
    rw [← none, Script.innerFunctions, Script.innerFunctions, Stmt.innerFunctions_splitAll,
      alike.inner]
    rfl

end Wabbit
