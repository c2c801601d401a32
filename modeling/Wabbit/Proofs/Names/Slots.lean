import Wabbit.Items.Unscript
import Wabbit.Proofs.Names.Declared
import Wabbit.Proofs.Names.Resolution

/-!
The variables on the stack of a function. However deep they are declared, and whatever their names
in the source text, all variables and parameters of one function get names of their own.
-/

namespace Wabbit.Ast

/-- A name that neither a block nor a register of the emitted program bears. -/
def IsSlot (name : String) : Prop := isBlockName name = false ∧ isUndotted name = true

/-- The new names are distinct from each other and from those taken before, all of them are taken
afterwards, and all of them are good. -/
structure TakesGood (good : String → Prop) (before after new : List String) : Prop where
  mono : before ⊆ after
  nodup : new.Nodup
  taken : new ⊆ after
  fresh : ∀ name ∈ new, name ∉ before
  slots : ∀ name ∈ new, good name

/-- The new names are those of slots. -/
abbrev Takes : (before after new : List String) → Prop := TakesGood IsSlot

namespace TakesGood

variable {good : String → Prop} {before middle after first second : List String}

theorem none (before : List String) : TakesGood good before before [] :=
  ⟨fun _ => id, List.nodup_nil, nofun, nofun, nofun⟩

theorem one (before : List String) {name : String} (proper : good (freshSlot before name)) :
    TakesGood good before (freshSlot before name :: before) [freshSlot before name] where
  mono := List.subset_cons_self ..
  nodup := List.nodup_singleton _
  taken := by simp
  fresh slot member := by
    rw [List.mem_singleton.mp member]
    exact freshSlot_not_mem before name
  slots slot member := by
    rw [List.mem_singleton.mp member]
    exact proper

theorem trans (left : TakesGood good before middle first)
    (right : TakesGood good middle after second) :
    TakesGood good before after (first ++ second) where
  mono _ member := right.mono (left.mono member)
  nodup := by
    refine List.nodup_append'.mpr ⟨left.nodup, right.nodup, ?_⟩
    intro name inFirst inSecond
    exact right.fresh name inSecond (left.taken inFirst)
  taken := List.append_subset.mpr ⟨fun _ member => right.mono (left.taken member), right.taken⟩
  fresh name member := by
    rcases List.mem_append.mp member with inFirst | inSecond
    · exact left.fresh name inFirst
    · exact fun old => right.fresh name inSecond (left.mono old)
  slots name member := by
    rcases List.mem_append.mp member with inFirst | inSecond
    · exact left.slots name inFirst
    · exact right.slots name inSecond

/-- A name may be taken without being used. -/
theorem more (takes : TakesGood good before middle first) (name : String) :
    TakesGood good before (name :: middle) first :=
  { takes with
    mono := fun _ member => List.mem_cons_of_mem _ (takes.mono member)
    taken := fun _ member => List.mem_cons_of_mem _ (takes.taken member) }

end TakesGood

namespace Stmt

variable {initializers negation : Prop}

mutual

/-- The variables that a statement makes room for on the stack of its function. A function inside it
has a stack of its own. -/
def slots : Stmt Symbol initializers negation → List String
  | declare symbol => if symbol.isGlobal then [] else [symbol.text]
  | ifElse _ ifTrue ifFalse => allSlots ifTrue ++ allSlots ifFalse
  | loop _ body => allSlots body
  | _ => []

def allSlots : List (Stmt Symbol initializers negation) → List String
  | [] => []
  | s :: rest => s.slots ++ allSlots rest

end

/-- If a statement is a function, then its parameters and variables have good names of their own. -/
def IsSeparate (good : String → Prop) : Stmt Symbol initializers negation → Prop
  | function _ parameters body =>
    ∃ taken, TakesGood good [] taken (parameters.map Symbol.text ++ allSlots body)
  | _ => True

end Stmt

/-- Whatever names are taken, the one chosen for a variable is good. -/
def IsNamedBy (good : String → Prop) (name : String) : Prop := ∀ taken, good (freshSlot taken name)

section Declarations

variable {good : String → Prop} (scope : Scope)

private theorem Scope.declare_takes (depth : Depth) {name : Name} (proper : IsNamedBy good name.text) :
    TakesGood good scope.slots (scope.declare depth name).2.slots
      (Stmt.slots (.declare (scope.declare depth name).1 : Stmt Symbol False True)) := by
  cases depth with
  | topLevel => exact .none _
  | nested => exact .one scope.slots (proper scope.slots)

private theorem Scope.declareAll_takes {names : List Name}
    (proper : ∀ name ∈ names, IsNamedBy good name.text) :
    TakesGood good scope.slots (scope.declareAll names).2.slots
      ((scope.declareAll names).1.map Symbol.text) := by
  induction names generalizing scope with
  | nil => exact .none _
  | cons name rest ih =>
    have first := TakesGood.one scope.slots (proper name (by simp) scope.slots)
    exact first.trans (ih (scope.declare .nested name).2 fun other member =>
      proper other (by simp [member]))

end Declarations

namespace Stmt

variable {negation : Prop} {good : String → Prop}

mutual

theorem resolve_takes {s : Stmt Name False negation} {scope : Scope} {depth : Depth}
    {out : Stmt Symbol False negation × Scope} (done : (s.resolve scope depth).result = .ok out)
    (proper : ∀ name ∈ s.declared, IsNamedBy good name) :
    TakesGood good scope.slots out.2.slots out.1.slots ∧ out.1.IsSeparate good := by
  cases s with
  | declare name =>
    cases done
    exact ⟨scope.declare_takes depth (proper name.text (by simp [declared, Named.text])), trivial⟩
  | define allowed name value => exact allowed.elim
  | ifElse condition ifTrue ifFalse =>
    cases resolve_inv done with
    | ifElse test first second =>
      have left := (resolveAll_takes first fun name member =>
        proper name (by simp [declared, member])).1
      have right := (resolveAll_takes second fun name member =>
        proper name (by simp [declared, member])).1
      exact ⟨left.trans right, trivial⟩
  | loop condition body =>
    cases resolve_inv done with
    | loop test round => exact ⟨(resolveAll_takes round proper).1, trivial⟩
  | function name parameters body =>
    cases resolve_inv done with
    | @function _ _ _ _ inner round =>
      refine ⟨?_, inner.slots, ?_⟩
      · cases depth with
        | topLevel => exact .none _
        | nested => exact (TakesGood.none _).more _
      · have front := Scope.declareAll_takes { (scope.declare depth name).2 with slots := [] }
          fun parameter member => proper parameter.text
            (by simp only [declared, List.mem_append]; exact .inl (List.mem_map_of_mem member))
        have back := (resolveAll_takes round fun name member =>
          proper name (by simp [declared, member])).1
        exact front.trans back
  | _ =>
    cases resolve_inv done
    exact ⟨.none _, trivial⟩

/-- Statements take new names for all variables that they declare. -/
theorem resolveAll_takes {stmts : List (Stmt Name False negation)} {scope : Scope} {depth : Depth}
    {out : List (Stmt Symbol False negation) × Scope}
    (done : (resolveAll scope depth stmts).result = .ok out)
    (proper : ∀ name ∈ allDeclared stmts, IsNamedBy good name) :
    TakesGood good scope.slots out.2.slots (allSlots out.1) ∧ ∀ s ∈ out.1, s.IsSeparate good := by
  cases stmts with
  | nil =>
    cases done
    exact ⟨.none _, nofun⟩
  | cons s rest =>
    obtain ⟨s', rest', middle, behind, own, others, rfl⟩ := resolveAll_cons done
    have first := resolve_takes own fun name member => proper name (by simp [allDeclared, member])
    have second := resolveAll_takes others fun name member =>
      proper name (by simp [allDeclared, member])
    exact ⟨first.1.trans second.1, List.forall_mem_cons.mpr ⟨first.2, second.2⟩⟩

end

private theorem allSlots_filter {keep : Stmt Symbol False negation → Bool}
    {stmts : List (Stmt Symbol False negation)}
    (dropped : ∀ s ∈ stmts, keep s = false → s.slots = []) :
    allSlots (stmts.filter keep) = allSlots stmts := by
  induction stmts with
  | nil => rfl
  | cons s rest ih =>
    have others := ih fun other member => dropped other (by simp [member])
    cases kept : keep s with
    | true => simp [kept, allSlots, others]
    | false => simp [kept, allSlots, others, dropped s (by simp) kept]

end Stmt

end Wabbit.Ast

namespace Wabbit

open Ast

variable {negation : Prop}

theorem Item.ofStmt?_function {s : Stmt Symbol False negation}
    {f : FunDef (Stmt Symbol False negation)} (item : Item.ofStmt? s = some (.function f)) :
    s = .function f.name f.parameters f.body := by
  cases s <;> simp only [Item.ofStmt?, reduceCtorEq] at item <;> split at item <;> cases item
  rfl

/-- Statements that become items make room for nothing. -/
theorem Item.slots_of_ofStmt? {s : Stmt Symbol False negation}
    (item : (Item.ofStmt? s).isNone = false) : s.slots = [] := by
  cases s <;> simp_all [Item.ofStmt?, Stmt.slots]

namespace Items

variable {script : Split} {resolved : Resolved} (done : script.resolve.result = .ok resolved)
include done

/-- In a program with known names, all parameters and variables of a function have names of their
own. -/
theorem ofScript_takes {good : String → Prop}
    (proper : ∀ name ∈ Stmt.allDeclared script, IsNamedBy good name) :
    ∀ f ∈ (ofScript resolved).functions, ∃ taken,
      TakesGood good [] taken (f.parameters.map Symbol.text ++ Stmt.allSlots f.body) := by
  obtain ⟨⟨_, scope⟩, own, last⟩ := Success.result_bind_eq_ok.mp done
  cases last
  obtain ⟨loose, separate⟩ := Stmt.resolveAll_takes own proper
  intro f member
  simp only [ofScript, functions, List.filterMap_append, List.mem_append] at member
  rcases member with member | member
  · obtain ⟨item, inside, isFunction⟩ := List.mem_filterMap.mp member
    obtain ⟨s, present, isItem⟩ := List.mem_filterMap.mp inside
    cases item with
    | global symbol => cases isFunction
    | function g =>
      cases isFunction
      have whole := Item.ofStmt?_function isItem
      have own := separate s present
      rw [whole] at own
      exact own
  · have same := List.mem_singleton.mp member
    refine ⟨scope.slots, ?_⟩
    rw [same, Stmt.allSlots_filter fun s _ item => Item.slots_of_ofStmt? item]
    exact loose

theorem ofScript_separate (undotted : ∀ name ∈ Stmt.allDeclared script, isUndotted name = true) :
    ∀ f ∈ (ofScript resolved).functions, ∃ taken,
      Takes [] taken (f.parameters.map Symbol.text ++ Stmt.allSlots f.body) :=
  ofScript_takes done fun name member taken =>
    ⟨freshSlot_not_isBlockName taken name, freshSlot_isUndotted taken (undotted name member)⟩

/-- Whatever names a program uses, the parameters and variables of a function get different ones. -/
theorem ofScript_nodup : ∀ f ∈ (ofScript resolved).functions,
    (f.parameters.map Symbol.text ++ Stmt.allSlots f.body).Nodup := by
  intro f member
  have any : ∀ name ∈ Stmt.allDeclared script, IsNamedBy (fun _ => True) name :=
    fun _ _ _ => trivial
  obtain ⟨taken, takes⟩ := ofScript_takes done any f member
  exact takes.nodup

end Items

end Wabbit
