import Wabbit.Proofs.Lowering.Progress
import Wabbit.Proofs.Names.Visible
import Wabbit.Proofs.Outline.Statements

/-!
Outlines in which every variable has room before it is used. What is declared in a block counts up to
its end only, and the resolution of names sees to it that no name refers to anything else.
-/

namespace Wabbit

open Ast Stack

namespace Mark

/-- The variables that have room behind some marks, where the known ones have room before them. -/
def roomsBehind : List Name → List Mark → List Name
  | known, [] => known
  | known, room name :: rest => roomsBehind (name :: known) rest
  | known, access _ :: rest => roomsBehind known rest
  | known, lead _ :: rest => roomsBehind known rest

/-- Whatever is used has room, and where control goes on it may go with the variables that have room
by then. -/
def Walks (leads : Label → List Name → Prop) : List Name → List Mark → Prop
  | _, [] => True
  | known, room name :: rest => Walks leads (name :: known) rest
  | known, access name :: rest => name ∈ known ∧ Walks leads known rest
  | known, lead targets :: rest =>
    (∀ target ∈ targets, leads target known) ∧ Walks leads known rest

/-- Whatever is used has room. -/
abbrev Covers : List Name → List Mark → Prop := Walks fun _ _ => True

theorem mem_roomsBehind {name : Name} {known : List Name} {marks : List Mark} :
    name ∈ roomsBehind known marks ↔ name ∈ known ∨ room name ∈ marks := by
  induction marks generalizing known with
  | nil => simp [roomsBehind]
  | cons mark rest ih =>
    cases mark <;> simp [roomsBehind, ih, or_assoc, or_left_comm]

theorem roomsBehind_append (known : List Name) (front back : List Mark) :
    roomsBehind known (front ++ back) = roomsBehind (roomsBehind known front) back := by
  induction front generalizing known with
  | nil => rfl
  | cons mark rest ih => cases mark <;> exact ih _

variable {leads leads' : Label → List Name → Prop} {known known' : List Name}

theorem walks_append {front back : List Mark} :
    Walks leads known (front ++ back) ↔
      Walks leads known front ∧ Walks leads (roomsBehind known front) back := by
  induction front generalizing known with
  | nil => simp [Walks, roomsBehind]
  | cons mark rest ih => cases mark <;> simp [Walks, roomsBehind, ih, and_assoc]

theorem Walks.mono {marks : List Mark} (walks : Walks leads known marks) (more : known ⊆ known')
    (weaker : ∀ target before after, leads target before → before ⊆ after → leads' target after) :
    Walks leads' known' marks := by
  induction marks generalizing known known' with
  | nil => trivial
  | cons mark rest ih =>
    cases mark with
    | room name => exact ih walks (List.cons_subset_cons name more)
    | access name => exact ⟨more walks.1, ih walks.2 more⟩
    | lead targets =>
      exact ⟨fun target member => weaker _ _ _ (walks.1 target member) more, ih walks.2 more⟩

/-- Marks that lead nowhere need no more than room for what is used. -/
theorem Covers.walks {marks : List Mark} (covers : Covers known marks)
    (stays : ∀ targets, lead targets ∉ marks) : Walks leads known marks := by
  induction marks generalizing known with
  | nil => trivial
  | cons mark rest ih =>
    have later (targets : List Label) : lead targets ∉ rest :=
      fun member => stays targets (List.mem_cons_of_mem _ member)
    cases mark with
    | room name => exact ih covers later
    | access name => exact ⟨covers.1, ih covers.2 later⟩
    | lead targets => exact absurd List.mem_cons_self (stays targets)

private theorem covers_of_forall {marks : List Mark}
    (all : ∀ mark ∈ marks, ∃ name ∈ known, mark = access name) :
    Covers known marks := by
  induction marks with
  | nil => trivial
  | cons mark rest ih =>
    obtain ⟨⟨name, has, rfl⟩, others⟩ := List.forall_mem_cons.mp all
    exact ⟨has, ih others⟩

end Mark

namespace Outline

open Mark

/-- The variables that have room behind a statement. What is declared inside of it does not count. -/
def roomsBehind (known : List Name) : Outline → List Name
  | leaf marks _ => Mark.roomsBehind known marks
  | branch _ _ _ | loop _ _ => known
  | function name => name :: known

mutual

/-- Whether all variables that a statement uses have room before, where the known ones have. -/
def Scoped (known : List Name) : Outline → Prop
  | leaf marks _ => Covers known marks
  | branch test ifTrue ifFalse =>
    Covers known test ∧ AllScoped known ifTrue ∧ AllScoped known ifFalse
  | loop test body => Covers known test ∧ AllScoped known body
  | function _ => True

def AllScoped (known : List Name) : List Outline → Prop
  | [] => True
  | s :: rest => s.Scoped known ∧ AllScoped (s.roomsBehind known) rest

end

end Outline

/-! ### Joining -/

namespace Stack

open Outline

private theorem allScoped_joinRun {instrs : Straight} {rest : List (Nested Straight)}
    {known : List Name} :
    AllScoped known (Nested.outlineAll id (joinRun instrs rest)) ↔
      AllScoped known (Nested.outlineAll id (.leaf instrs :: rest)) := by
  rcases joinRun_cases instrs rest with same | ⟨-, next, others, rfl, same⟩
  · rw [same]
  · simp [same, Nested.outlineAll, Nested.outline, AllScoped, Scoped, roomsBehind, Mark.walks_append,
      Mark.roomsBehind_append, and_assoc]

/-- Joining statements into runs does not change what has room. -/
theorem allScoped_joinAllRuns (stmts : List (Nested Straight)) (known : List Name) :
    AllScoped known (Nested.outlineAll id (Nested.joinAllRuns stmts)) ↔
      AllScoped known (Nested.outlineAll id stmts) := by
  induction stmts using Nested.inductionAll generalizing known with
  | nil => rfl
  | leaf instrs rest ih =>
    rw [Nested.joinAllRuns, allScoped_joinRun]
    exact and_congr_right fun _ => ih _
  | ifElse condition ifTrue ifFalse rest first second ih =>
    exact and_congr (and_congr_right fun _ => and_congr (first _) (second _)) (ih _)
  | loop condition body rest inner ih =>
    exact and_congr (and_congr_right fun _ => inner _) (ih _)
  | function name parameters body rest inner ih => exact and_congr_right fun _ => ih _

end Stack

/-! ### Resolution -/

namespace Ast

variable {negation : Prop}

mutual

/-- All marks of an expression come from its names. Those of functions leave none. -/
theorem Expr.marks_subset (e : Expr Symbol negation) : e.marks ⊆ e.names.flatMap Symbol.marks := by
  cases e with
  | name symbol => simp [Expr.marks, Expr.names]
  | arith op left right | compare op left right =>
    rw [Expr.marks, Expr.names, List.flatMap_append]
    exact List.append_subset.mpr ⟨List.subset_append_of_subset_left _ left.marks_subset,
      List.subset_append_of_subset_right _ right.marks_subset⟩
  | call function arguments =>
    rw [Expr.marks, Expr.names, List.flatMap_cons]
    exact List.subset_append_of_subset_right _ (Expr.allMarks_subset arguments)
  | neg allowed inner => exact inner.marks_subset
  | _ => exact List.nil_subset _

theorem Expr.allMarks_subset (es : List (Expr Symbol negation)) :
    Expr.allMarks es ⊆ (Expr.allNames es).flatMap Symbol.marks := by
  cases es with
  | nil => exact List.nil_subset _
  | cons e rest =>
    rw [Expr.allMarks, Expr.allNames, List.flatMap_append]
    exact List.append_subset.mpr ⟨List.subset_append_of_subset_left _ e.marks_subset,
      List.subset_append_of_subset_right _ (Expr.allMarks_subset rest)⟩

end

/-- The variables on the stack that are visible in a scope have room. -/
def Scope.HasRooms (scope : Scope) (known : List Name) : Prop :=
  ∀ entry ∈ scope.locals, entry.2.name ∈ known

section Rooms

variable {scope : Scope} {depth : Depth} {known : List Name} (tidy : scope.Tidy depth)
  (has : scope.HasRooms known)
include tidy has

theorem Scope.marks_binding (name : Name) :
    ∀ mark ∈ (scope.visible.binding name).marks, ∃ other ∈ known, mark = .access other := by
  unfold Symbol.marks
  rcases tidy.binding_global_or_mem name with outside | inside
  · simp [outside]
  · have own := (tidy.locals _ inside).1
    dsimp only at own
    rw [own]
    exact List.forall_mem_singleton.mpr ⟨_, has _ inside, rfl⟩

/-- Expressions use variables that are visible. -/
theorem Expr.marks_of_names {names : List Name} {e : Expr Symbol negation}
    (refer : e.names = names.map scope.visible.binding) :
    ∀ mark ∈ e.marks, ∃ name ∈ known, mark = .access name := by
  intro mark member
  obtain ⟨symbol, inside, marked⟩ := List.mem_flatMap.mp (e.marks_subset member)
  rw [refer] at inside
  obtain ⟨name, -, rfl⟩ := List.mem_map.mp inside
  exact scope.marks_binding tidy has name mark marked

end Rooms

namespace Scope

variable {scope : Scope} {known : List Name}

theorem HasRooms.mono {known' : List Name} (has : scope.HasRooms known) (more : known ⊆ known') :
    scope.HasRooms known' :=
  fun entry member => more (has entry member)

theorem HasRooms.declare (has : scope.HasRooms known) (depth : Depth) (name : Name) :
    (scope.declare depth name).2.HasRooms ((scope.declare depth name).1.name :: known) := by
  have before := has.mono (List.subset_cons_self (scope.declare depth name).1.name known)
  cases depth with
  | topLevel => exact before
  | nested => exact List.forall_mem_cons.mpr ⟨List.mem_cons_self, before⟩

private theorem HasRooms.declareAll (has : scope.HasRooms known) (names : List Name) :
    (scope.declareAll names).2.HasRooms ((scope.declareAll names).1.map Symbol.name ++ known) := by
  induction names generalizing scope known with
  | nil => exact has
  | cons name rest ih =>
    refine (ih (has.declare .nested name)).mono fun other member => ?_
    simpa [Scope.declareAll, or_left_comm, or_assoc] using member

end Scope

namespace Stmt

mutual

theorem resolve_scoped {s : Stmt Name False negation} {scope : Scope} {depth : Depth}
    {known : List Name} {out : Stmt Symbol False negation × Scope}
    (done : (s.resolve scope depth).result = .ok out) (tidy : scope.Tidy depth)
    (has : scope.HasRooms known) :
    out.1.outline.Scoped known ∧ out.2.HasRooms (out.1.outline.roomsBehind known) := by
  have kept (marks : List Mark) : scope.HasRooms (Mark.roomsBehind known marks) :=
    has.mono fun name member => Mark.mem_roomsBehind.mpr (.inl member)
  cases s with
  | declare name =>
    cases done
    exact ⟨trivial, has.declare depth name⟩
  | define allowed name value => exact allowed.elim
  | assign name value =>
    cases resolve_inv done with
    | assign target own =>
      cases (scope.result_lookup name).symm.trans target
      refine ⟨Mark.covers_of_forall (List.forall_mem_append.mpr ⟨?_, ?_⟩), kept _⟩
      · exact Expr.marks_of_names tidy has (Expr.names_resolve own)
      · exact scope.marks_binding tidy has name
  | print value =>
    cases resolve_inv done with
    | print own =>
      exact ⟨Mark.covers_of_forall (Expr.marks_of_names tidy has (Expr.names_resolve own)), kept _⟩
  | ret value =>
    cases resolve_inv done with
    | ret own =>
      exact ⟨Mark.covers_of_forall (Expr.marks_of_names tidy has (Expr.names_resolve own)), kept _⟩
  | eval value =>
    cases resolve_inv done with
    | eval own =>
      exact ⟨Mark.covers_of_forall (Expr.marks_of_names tidy has (Expr.names_resolve own)), kept _⟩
  | ifElse condition ifTrue ifFalse =>
    cases resolve_inv done with
    | ifElse test first second =>
      have test := Expr.marks_of_names tidy has (Condition.names_resolve test)
      have tidy' := tidy.nested.leave (slots_resolveAll first)
      exact ⟨⟨Mark.covers_of_forall test, resolveAll_scoped first tidy.nested has,
        resolveAll_scoped second tidy' has⟩, has⟩
  | loop condition body =>
    cases resolve_inv done with
    | loop test round =>
      have test := Expr.marks_of_names tidy has (Condition.names_resolve test)
      exact ⟨⟨Mark.covers_of_forall test, resolveAll_scoped round tidy.nested has⟩, has⟩
  | function name parameters body =>
    cases resolve_inv done with
    | function round => exact ⟨trivial, has.declare depth name⟩

/-- Statements use variables that are visible, and those have room. -/
theorem resolveAll_scoped {stmts : List (Stmt Name False negation)} {scope : Scope} {depth : Depth}
    {known : List Name} {out : List (Stmt Symbol False negation) × Scope}
    (done : (resolveAll scope depth stmts).result = .ok out) (tidy : scope.Tidy depth)
    (has : scope.HasRooms known) : Outline.AllScoped known (outlineAll out.1) := by
  cases stmts with
  | nil =>
    cases done
    trivial
  | cons s rest =>
    obtain ⟨s', rest', middle, behind, own, others, rfl⟩ := resolveAll_cons done
    obtain ⟨first, has'⟩ := resolve_scoped own tidy has
    exact ⟨first, resolveAll_scoped others ((resolve_behind own).tidy tidy) has'⟩

end

/-- If a statement is a function, then its body uses its parameters and variables only after they
have room. -/
def BodyScoped : Stmt Symbol False negation → Prop
  | function _ parameters body =>
    Outline.AllScoped (parameters.map Symbol.name) (outlineAll body)
  | _ => True

private theorem resolve_bodyScoped {s : Stmt Name False negation} {scope : Scope}
    {out : Stmt Symbol False negation × Scope}
    (done : (s.resolve scope .topLevel).result = .ok out) (tidy : scope.Tidy .topLevel) :
    out.1.BodyScoped := by
  cases s with
  | define allowed name value => exact allowed.elim
  | function name parameters body =>
    cases resolve_inv done with
    | function round =>
      have outside : scope.locals = [] := tidy.outside rfl
      have start : { (scope.declare .topLevel name).2 with slots := [] }.Tidy .nested :=
        ⟨by simp, by simp [Scope.declare, outside], (tidy.declare name).globals⟩
      have none : { (scope.declare .topLevel name).2 with slots := [] }.HasRooms [] := by
        simp [Scope.HasRooms, Scope.declare, outside]
      have rooms := none.declareAll parameters
      rw [List.append_nil] at rooms
      exact resolveAll_scoped round (start.declareAll parameters) rooms
  | _ =>
    cases resolve_inv done
    trivial

/-- Whatever is left out of the statements of the top level, the others are scoped, because nothing
on the stack is visible there. -/
theorem resolveAll_topLevel_scoped {stmts : List (Stmt Name False negation)} {scope : Scope}
    {out : List (Stmt Symbol False negation) × Scope}
    (done : (resolveAll scope .topLevel stmts).result = .ok out) (tidy : scope.Tidy .topLevel)
    (keep : Stmt Symbol False negation → Bool) (known : List Name) :
    Outline.AllScoped known (outlineAll (out.1.filter keep)) ∧ ∀ s ∈ out.1, s.BodyScoped := by
  induction stmts generalizing scope out known with
  | nil =>
    cases done
    exact ⟨trivial, List.forall_mem_nil _⟩
  | cons s rest ih =>
    obtain ⟨s', rest', middle, behind, own, others, rfl⟩ := resolveAll_cons done
    have tidy' := (resolve_behind own).tidy tidy
    have body := resolve_bodyScoped own tidy
    have none : scope.HasRooms known := by simp [Scope.HasRooms, tidy.outside rfl]
    refine ⟨?_, List.forall_mem_cons.mpr ⟨body, (ih others tidy' known).2⟩⟩
    rw [List.filter_cons]
    split
    · exact ⟨(resolve_scoped own tidy none).1, (ih others tidy' _).1⟩
    · exact (ih others tidy' known).1

end Stmt

end Ast

/-- All functions of a program with known names use their parameters and variables only after they
have room. -/
theorem Items.ofScript_scoped {script : Split} {resolved : Resolved}
    (done : script.resolve.result = .ok resolved) :
    ∀ f ∈ (Items.ofScript resolved).functions,
      Outline.AllScoped (f.parameters.map Symbol.name) (Stmt.outlineAll f.body) := by
  obtain ⟨⟨_, scope⟩, own, last⟩ := Success.result_bind_eq_ok.mp done
  cases last
  have tidy : ({} : Scope).Tidy .topLevel := ⟨fun _ => rfl, List.forall_mem_nil _, List.forall_mem_nil _⟩
  intro f member
  rcases mem_functions_ofScript.mp member with ⟨s, inside, isItem⟩ | rfl
  · have body := (Stmt.resolveAll_topLevel_scoped own tidy (fun _ => true) []).2 s inside
    rw [Item.ofStmt?_function isItem] at body
    exact body
  · exact (Stmt.resolveAll_topLevel_scoped own tidy _ []).1

end Wabbit
