import Wabbit.Ast.Splitting
import Wabbit.Proofs.Names.Visible

/-!
What the names in the value of a definition refer to. A definition is taken apart into a declaration
and an assignment before names are resolved, so its own name is visible in its value: there it refers
to the variable that is being defined, and all other names to what was visible before. Main
statement: the value of a definition inside a function, branch or loop is resolved as if it stood in
front of the definition exactly if the name defined does not occur in it.
-/

namespace Wabbit.Ast

/-- A definition inside a function, branch or loop, and what it has become. -/
structure Definition where
  /-- What is visible right in front of it. -/
  before : Visible
  name : Name
  value : Expr Name True
  /-- The variable that it declares. -/
  slot : Symbol
  /-- The variable that the value is assigned to. -/
  target : Symbol
  /-- The value with known names. -/
  resolved : Expr Symbol True

namespace Definition

def written (d : Definition) : Name × Expr Name True := (d.name, d.value)

/-- The names in the value refer to what was visible before, but for the name that is defined. The
variable is a new one. -/
structure IsResolved (d : Definition) : Prop where
  fresh : ∀ name, d.slot ≠ d.before.binding name
  target : d.target = d.slot
  resolved : d.resolved = d.value.rename fun name =>
    if name.text = d.name.text then d.slot else d.before.binding name

/-- The value is resolved as if it stood in front of the definition just when the definition does
not use its own name. -/
theorem IsResolved.resolved_eq_iff {d : Definition} (follows : d.IsResolved) :
    d.resolved = d.value.rename d.before.binding ↔
      ∀ name ∈ d.value.names, name.text ≠ d.name.text := by
  rw [follows.resolved, Expr.rename_eq_rename_iff]
  constructor
  · intro all name member own
    have same := all name member
    rw [if_pos own] at same
    exact follows.fresh name same
  · intro others name member
    rw [if_neg (others name member)]

end Definition

namespace Stmt

mutual

/-- The definitions in a statement that do not stand at the top level. -/
def initializers (depth : Depth) : Stmt Name True True → List (Name × Expr Name True)
  | define _ name value => if depth = .nested then [(name, value)] else []
  | ifElse _ ifTrue ifFalse => allInitializers .nested ifTrue ++ allInitializers .nested ifFalse
  | loop _ body => allInitializers .nested body
  | function _ _ body => allInitializers .nested body
  | _ => []

def allInitializers (depth : Depth) : List (Stmt Name True True) → List (Name × Expr Name True)
  | [] => []
  | s :: rest => s.initializers depth ++ allInitializers depth rest

end

/-- What is visible behind a statement that has become the given ones. -/
def visibleBehind (depth : Depth) (visible : Visible) :
    Stmt Name True True → List (Stmt Symbol False True) → Visible
  | declare name, .declare symbol :: _ => visible.declare depth name symbol
  | define _ name _, .declare symbol :: _ => visible.declare depth name symbol
  | function name _ _, .function symbol _ _ :: _ => visible.declare depth name symbol
  | _, _ => visible

mutual

/-- The definitions in a statement that do not stand at the top level, with what they have become. -/
def definitions (depth : Depth) (visible : Visible) :
    Stmt Name True True → List (Stmt Symbol False True) → List Definition
  | define _ name value, [.declare slot, .assign target resolved] =>
    if depth = .nested then [⟨visible, name, value, slot, target, resolved⟩] else []
  | ifElse _ ifTrue ifFalse, [.ifElse _ ifTrue' ifFalse'] =>
    allDefinitions .nested visible ifTrue ifTrue' ++ allDefinitions .nested visible ifFalse ifFalse'
  | loop _ body, [.loop _ body'] => allDefinitions .nested visible body body'
  | function name parameters body, [.function symbol symbols body'] =>
    allDefinitions .nested ((visible.declare depth name symbol).declareAll parameters symbols) body
      body'
  | _, _ => []

/-- The definitions in several statements, each of which has become as many as it is split into. -/
def allDefinitions (depth : Depth) (visible : Visible) :
    List (Stmt Name True True) → List (Stmt Symbol False True) → List Definition
  | [], _ => []
  | s :: rest, out =>
    s.definitions depth visible (out.take s.split.length) ++
      allDefinitions depth (s.visibleBehind depth visible (out.take s.split.length)) rest
        (out.drop s.split.length)

end

mutual

/-- Whether functions stand at the top level only. -/
def isFlat (depth : Depth) : Stmt Name True True → Bool
  | ifElse _ ifTrue ifFalse => allFlat .nested ifTrue && allFlat .nested ifFalse
  | loop _ body => allFlat .nested body
  | function _ _ body => depth = .topLevel && allFlat .nested body
  | _ => true

def allFlat (depth : Depth) : List (Stmt Name True True) → Bool
  | [] => true
  | s :: rest => s.isFlat depth && allFlat depth rest

end

/-- A definition becomes a declaration and an assignment, in which the new variable is visible. -/
theorem resolveAll_define {name : Name} {value : Expr Name True} {scope : Scope} {depth : Depth}
    {out : List (Stmt Symbol False True) × Scope}
    (done : (resolveAll scope depth [.declare name, .assign name value]).result = .ok out) :
    out = ([.declare (scope.declare depth name).1,
      .assign ((scope.declare depth name).2.visible.binding name)
        (value.rename (scope.declare depth name).2.visible.binding)],
      (scope.declare depth name).2) := by
  obtain ⟨s', rest', middle, behind, own, others, rfl⟩ := resolveAll_cons done
  cases resolve_inv own
  obtain ⟨s', behind', assigned, parts⟩ := resolveAll_singleton others
  cases parts
  cases assigned with
  | assign target resolved =>
    rw [Scope.result_lookup] at target
    cases target
    rw [Expr.resolve_eq_rename resolved]

private theorem visible_resolveAll_split {s : Stmt Name True True} {scope : Scope} {depth : Depth}
    {out : List (Stmt Symbol False True) × Scope}
    (done : (resolveAll scope depth s.split).result = .ok out) :
    out.2.visible = s.visibleBehind depth scope.visible out.1 := by
  cases s with
  | declare name =>
    cases done
    exact scope.visible_declare depth name
  | define allowed name value =>
    rw [resolveAll_define done]
    exact scope.visible_declare depth name
  | function name parameters body =>
    obtain ⟨s', behind, own, rfl⟩ := resolveAll_singleton done
    cases own
    exact scope.visible_declare depth name
  | _ =>
    obtain ⟨s', behind, own, rfl⟩ := resolveAll_singleton done
    cases own
    rfl

mutual

theorem definitions_resolved {s : Stmt Name True True} {scope : Scope} {depth : Depth}
    {out : List (Stmt Symbol False True) × Scope}
    (done : (resolveAll scope depth s.split).result = .ok out) (tidy : scope.Tidy depth)
    (flat : s.isFlat depth = true) :
    (s.definitions depth scope.visible out.1).map Definition.written = s.initializers depth ∧
      ∀ d ∈ s.definitions depth scope.visible out.1, d.IsResolved := by
  cases s with
  | define allowed name value =>
    rw [resolveAll_define done]
    cases depth with
    | topLevel => exact ⟨rfl, nofun⟩
    | nested =>
      refine ⟨rfl, List.forall_mem_singleton.mpr ⟨tidy.declare_ne_binding name, ?_, ?_⟩⟩
      · simp only [scope.visible_declare, Visible.binding_declare, if_true]
      · simp only [scope.visible_declare, funext (Visible.binding_declare _ _ _)]
  | ifElse condition ifTrue ifFalse =>
    simp only [isFlat, Bool.and_eq_true] at flat
    obtain ⟨s', behind, own, rfl⟩ := resolveAll_singleton done
    cases own with
    | ifElse test first second =>
      have left := allDefinitions_resolved first tidy.nested flat.1
      have right := allDefinitions_resolved second (tidy.leave (slots_resolveAll first)).nested flat.2
      refine ⟨?_, List.forall_mem_append.mpr ⟨left.2, right.2⟩⟩
      exact List.map_append.trans (congrArg₂ (· ++ ·) left.1 right.1)
  | loop condition body =>
    obtain ⟨s', behind, own, rfl⟩ := resolveAll_singleton done
    cases own with
    | loop test round => exact allDefinitions_resolved round tidy.nested flat
  | function name parameters body =>
    simp only [isFlat, Bool.and_eq_true, decide_eq_true_eq] at flat
    obtain ⟨rfl, flat⟩ := flat
    obtain ⟨s', behind, own, rfl⟩ := resolveAll_singleton done
    cases own with
    | function round =>
      -- The stack of a function at the top level starts empty, with nothing on it visible yet.
      have empty : { (scope.declare .topLevel name).2 with slots := [] }.Tidy .nested :=
        ⟨nofun, by simp [Scope.declare, tidy.outside rfl], (tidy.declare name).globals⟩
      have inside := allDefinitions_resolved round (empty.declareAll parameters) flat
      rw [Scope.visible_declareAll] at inside
      exact inside
  | _ => exact ⟨rfl, nofun⟩

theorem allDefinitions_resolved {stmts : List (Stmt Name True True)} {scope : Scope} {depth : Depth}
    {out : List (Stmt Symbol False True) × Scope}
    (done : (resolveAll scope depth (splitAll stmts)).result = .ok out) (tidy : scope.Tidy depth)
    (flat : allFlat depth stmts = true) :
    (allDefinitions depth scope.visible stmts out.1).map Definition.written =
        allInitializers depth stmts ∧
      ∀ d ∈ allDefinitions depth scope.visible stmts out.1, d.IsResolved := by
  cases stmts with
  | nil => exact ⟨rfl, nofun⟩
  | cons s rest =>
    simp only [allFlat, Bool.and_eq_true] at flat
    obtain ⟨front, back, middle, behind, size, first, second, rfl⟩ := resolveAll_append done
    have own := definitions_resolved first tidy flat.1
    have others := allDefinitions_resolved second (resolveAll_tidy first tidy) flat.2
    rw [visible_resolveAll_split first] at others
    simp only [allDefinitions, allInitializers, List.take_left' size, List.drop_left' size,
      List.map_append, own.1, others.1, List.forall_mem_append, true_and]
    exact ⟨own.2, others.2⟩

end

end Stmt

namespace Script

/-- Whether all functions of a program stand at its top level. -/
def isFlat (script : Script Name True True) : Bool := Stmt.allFlat .topLevel script

/-- The definitions inside the functions, branches and loops of a program. -/
def initializers (script : Script Name True True) : List (Name × Expr Name True) :=
  Stmt.allInitializers .topLevel script

/-- The definitions inside the functions, branches and loops of a program, with what they have
become. -/
def definitions (script : Script Name True True) (resolved : Resolved) : List Definition :=
  Stmt.allDefinitions .topLevel {} script resolved

/-- Every definition inside a function, branch or loop makes a new variable. In its value the name
that is defined refers to that variable and all other names to what was visible before; so the value
is resolved as if it stood in front of the definition exactly if it does not use the name. -/
theorem definitions_resolved_iff {script : Parsed} {resolved : Resolved}
    (flat : script.isFlat = true) (done : script.split.resolve.result = .ok resolved) :
    (script.definitions resolved).map Definition.written = script.initializers ∧
      ∀ d ∈ script.definitions resolved, d.IsResolved ∧
        (d.resolved = d.value.rename d.before.binding ↔
          ∀ name ∈ d.value.names, name.text ≠ d.name.text) := by
  obtain ⟨⟨out, scope⟩, own, last⟩ := Success.result_bind_eq_ok.mp done
  cases last
  have tidy : ({} : Scope).Tidy .topLevel := ⟨fun _ => rfl, nofun, nofun⟩
  obtain ⟨all, each⟩ := Stmt.allDefinitions_resolved own tidy flat
  refine ⟨all, ?_⟩
  intro d member
  have follows := each d member
  exact ⟨follows, follows.resolved_eq_iff⟩

/-- A branch in which a name is defined by itself, between a definition by a parameter and one by the
variable of the branch. -/
theorem definitions_resolved_iff_shadowing :
    let x : Name := ⟨"x", .integer⟩
    let y : Name := ⟨"y", .integer⟩
    let z : Name := ⟨"z", .integer⟩
    let script : Parsed := [.function ⟨"f", .integer⟩ [y] [.define trivial x (.name y),
      .ifElse ⟨.less, .name x, .int 1⟩ [.define trivial x (.name x), .define trivial z (.name x)] [],
      .ret (.name x)]]
    script.isFlat = true ∧ ∃ resolved, script.split.resolve.result = .ok resolved ∧
      script.initializers = [(x, .name y), (x, .name x), (z, .name x)] ∧
      (script.definitions resolved).map Definition.written = script.initializers ∧
      ∀ d ∈ script.definitions resolved, d.IsResolved ∧
        (d.resolved = d.value.rename d.before.binding ↔
          ∀ name ∈ d.value.names, name.text ≠ d.name.text) := by
  intro x y z script
  have flat : script.isFlat = true := rfl
  obtain ⟨resolved, done⟩ : ∃ resolved, script.split.resolve.result = .ok resolved := ⟨_, rfl⟩
  exact ⟨flat, resolved, done, rfl, definitions_resolved_iff flat done⟩

/-- A name that is defined by itself does not refer to the global variable of that name. -/
theorem definition_refers_to_itself :
    let x : Name := ⟨"x", .integer⟩
    let value : Expr Name True := .arith .add (.name x) (.int 1)
    let script : Parsed := [.define trivial x (.int 2),
      .function ⟨"f", .integer⟩ [] [.define trivial x value, .ret (.name x)]]
    script.isFlat = true ∧ ∃ resolved, script.split.resolve.result = .ok resolved ∧
      ∃ d ∈ script.definitions resolved, d.value = value ∧
        d.value.rename d.before.binding =
          .arith .add (.name (.global "x" .integer)) (.int 1) ∧
        d.resolved = .arith .add (.name (.stack "x" .integer)) (.int 1) ∧
        d.resolved ≠ d.value.rename d.before.binding := by
  intro x value script
  have slot : freshSlot [] "x" = "x" := by decide +kernel
  refine ⟨rfl, _, rfl, _, List.mem_singleton_self _, rfl, rfl, ?_, ?_⟩
  · exact congrArg (fun text => Expr.arith .add (.name (Symbol.stack text .integer)) (.int 1)) slot
  · intro same
    have storages := congrArg (fun e => e.names.map Symbol.storage) same
    cases storages

end Script

end Wabbit.Ast
