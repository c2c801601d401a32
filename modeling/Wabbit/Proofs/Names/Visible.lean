import Wabbit.Proofs.Names.Fresh
import Wabbit.Proofs.Names.Resolution

/-!
What is visible at a place of a program, and what the names there are resolved to.
-/

namespace Wabbit.Ast

/-! ### Names in expressions -/

namespace Expr

variable {ν μ : Type} {negation : Prop}

mutual

/-- The names in an expression, from the left to the right. -/
def names : Expr ν negation → List ν
  | int _ | float _ => []
  | name n => [n]
  | arith _ left right | compare _ left right => left.names ++ right.names
  | call function arguments => function :: allNames arguments
  | neg _ inner => inner.names

def allNames : List (Expr ν negation) → List ν
  | [] => []
  | e :: rest => e.names ++ allNames rest

end

mutual

/-- The expression with other names. -/
def rename (f : ν → μ) : Expr ν negation → Expr μ negation
  | int value => .int value
  | float value => .float value
  | name n => .name (f n)
  | arith op left right => .arith op (left.rename f) (right.rename f)
  | compare op left right => .compare op (left.rename f) (right.rename f)
  | call function arguments => .call (f function) (renameAll f arguments)
  | neg allowed inner => .neg allowed (inner.rename f)

def renameAll (f : ν → μ) : List (Expr ν negation) → List (Expr μ negation)
  | [] => []
  | e :: rest => e.rename f :: renameAll f rest

end

mutual

theorem names_rename (f : ν → μ) (e : Expr ν negation) : (e.rename f).names = e.names.map f := by
  cases e with
  | arith op left right | compare op left right =>
    simp only [rename, names, List.map_append, names_rename f left, names_rename f right]
  | call function arguments =>
    simp only [rename, names, List.map_cons, allNames_renameAll f arguments]
  | neg allowed inner => simp only [rename, names, names_rename f inner]
  | _ => rfl

theorem allNames_renameAll (f : ν → μ) (es : List (Expr ν negation)) :
    allNames (renameAll f es) = (allNames es).map f := by
  cases es with
  | nil => rfl
  | cons e rest =>
    simp only [renameAll, allNames, List.map_append, names_rename f e, allNames_renameAll f rest]

end

variable {f g : ν → μ}

mutual

/-- Renamings differ on an expression just when they differ on one of its names. -/
theorem rename_eq_rename_iff (e : Expr ν negation) :
    e.rename f = e.rename g ↔ ∀ n ∈ e.names, f n = g n := by
  cases e with
  | arith op left right =>
    simp only [rename, names, arith.injEq, true_and, List.forall_mem_append,
      rename_eq_rename_iff left, rename_eq_rename_iff right]
  | compare op left right =>
    simp only [rename, names, compare.injEq, true_and, List.forall_mem_append,
      rename_eq_rename_iff left, rename_eq_rename_iff right]
  | call function arguments =>
    simp only [rename, names, call.injEq, List.forall_mem_cons, renameAll_eq_renameAll_iff arguments]
  | neg allowed inner => simp only [rename, names, neg.injEq, rename_eq_rename_iff inner]
  | _ => simp [rename, names]

theorem renameAll_eq_renameAll_iff (es : List (Expr ν negation)) :
    renameAll f es = renameAll g es ↔ ∀ n ∈ allNames es, f n = g n := by
  cases es with
  | nil => simp [renameAll, allNames]
  | cons e rest =>
    simp only [renameAll, allNames, List.cons.injEq, List.forall_mem_append, rename_eq_rename_iff e,
      renameAll_eq_renameAll_iff rest]

end

mutual

theorem rename_rename {κ : Type} (f : ν → μ) (g : μ → κ) (e : Expr ν negation) :
    (e.rename f).rename g = e.rename fun n => g (f n) := by
  cases e with
  | arith op left right => simp only [rename, rename_rename f g left, rename_rename f g right]
  | compare op left right => simp only [rename, rename_rename f g left, rename_rename f g right]
  | call function arguments => simp only [rename, renameAll_renameAll f g arguments]
  | neg allowed inner => simp only [rename, rename_rename f g inner]
  | _ => rfl

theorem renameAll_renameAll {κ : Type} (f : ν → μ) (g : μ → κ) (es : List (Expr ν negation)) :
    renameAll g (renameAll f es) = renameAll (fun n => g (f n)) es := by
  cases es with
  | nil => rfl
  | cons e rest => simp only [renameAll, rename_rename f g e, renameAll_renameAll f g rest]

end

end Expr

/-! ### Visible declarations -/

/-- The names that are declared at a place and the symbols they stand for there, the latest first. -/
structure Visible where
  locals : List (String × Symbol) := []
  globals : List (String × Symbol) := []

namespace Visible

/-- What a name refers to: the latest local declaration of it, or else the global one. -/
def binding (visible : Visible) (name : Name) : Symbol :=
  ((visible.locals.lookup name.text).or (visible.globals.lookup name.text)).getD
    (.global name.text name.kind)

/-- What is visible behind a declaration. At the top level it is a global one, elsewhere a local
one. -/
def declare (visible : Visible) (depth : Depth) (name : Name) (symbol : Symbol) : Visible :=
  match depth with
  | .topLevel => { visible with globals := (name.text, symbol) :: visible.globals }
  | .nested => { visible with locals := (name.text, symbol) :: visible.locals }

/-- What is visible behind the parameters of a function. -/
def declareAll (visible : Visible) : List Name → List Symbol → Visible
  | name :: names, symbol :: symbols => (visible.declare .nested name symbol).declareAll names symbols
  | _, _ => visible

/-- A local declaration changes what its own name refers to and nothing else. -/
theorem binding_declare (visible : Visible) (name : Name) (symbol : Symbol) (other : Name) :
    (visible.declare .nested name symbol).binding other =
      if other.text = name.text then symbol else visible.binding other := by
  by_cases same : other.text = name.text
  · simp [binding, declare, same]
  · have different : (other.text == name.text) = false := beq_eq_false_iff_ne.mpr same
    simp [binding, declare, same, List.lookup_cons, different]

end Visible

namespace Scope

/-- What is visible in a scope. -/
def visible (scope : Scope) : Visible where
  locals := scope.locals
  globals := scope.globals.map fun symbol => (symbol.text, symbol)

theorem lookup_globals (scope : Scope) (name : String) :
    scope.visible.globals.lookup name = scope.globals.find? fun symbol => symbol.text = name := by
  unfold visible
  induction scope.globals with
  | nil => rfl
  | cons symbol rest ih =>
    by_cases same : symbol.text = name
    · simp [same]
    · have different : (name == symbol.text) = false := beq_eq_false_iff_ne.mpr (Ne.symm same)
      simp only [List.map_cons, List.lookup_cons, different, ih, List.find?_cons, same, decide_false]

theorem result_lookup (scope : Scope) (name : Name) :
    (scope.lookup name).result = .ok (scope.visible.binding name) := by
  have found : scope.visible.binding name =
      (scope.find? name.text).getD (.global name.text name.kind) := by
    rw [find?, ← lookup_globals]
    rfl
  rw [found]
  unfold lookup
  cases scope.find? name.text <;> rfl

theorem visible_declare (scope : Scope) (depth : Depth) (name : Name) :
    (scope.declare depth name).2.visible =
      scope.visible.declare depth name (scope.declare depth name).1 := by
  cases depth <;> rfl

theorem visible_declareAll (scope : Scope) (names : List Name) :
    (scope.declareAll names).2.visible =
      scope.visible.declareAll names (scope.declareAll names).1 := by
  induction names generalizing scope with
  | nil => rfl
  | cons name rest ih => exact ih (scope.declare .nested name).2

end Scope

variable {negation : Prop}

mutual

/-- The names of an expression are resolved to what they refer to in the scope. -/
theorem Expr.resolve_eq_rename {scope : Scope} {e : Expr Name negation} {e' : Expr Symbol negation}
    (done : (e.resolve scope).result = .ok e') : e' = e.rename scope.visible.binding := by
  cases e with
  | name n =>
    simp only [Expr.resolve, Success.result_bind_eq_ok, Scope.result_lookup] at done
    obtain ⟨symbol, found, last⟩ := done
    cases found
    cases last
    rfl
  | arith op left right =>
    simp only [Expr.resolve, Success.result_bind_eq_ok] at done
    obtain ⟨left', first, right', second, last⟩ := done
    have same : Expr.arithmetic op left' right' = .ok e' := last
    unfold Expr.arithmetic at same
    split at same
    · cases same
      rw [Expr.resolve_eq_rename first, Expr.resolve_eq_rename second]
      rfl
    · cases same
  | compare op left right =>
    simp only [Expr.resolve, Success.result_bind_eq_ok] at done
    obtain ⟨left', first, right', second, last⟩ := done
    cases last
    rw [Expr.resolve_eq_rename first, Expr.resolve_eq_rename second]
    rfl
  | call function arguments =>
    simp only [Expr.resolve, Success.result_bind_eq_ok, Scope.result_lookup] at done
    obtain ⟨symbol, found, arguments', others, last⟩ := done
    cases found
    cases last
    rw [Expr.resolveAll_eq_renameAll others]
    rfl
  | neg allowed inner =>
    simp only [Expr.resolve, Success.result_bind_eq_ok] at done
    obtain ⟨inner', first, last⟩ := done
    cases last
    rw [Expr.resolve_eq_rename first]
    rfl
  | _ =>
    cases done
    rfl

theorem Expr.resolveAll_eq_renameAll {scope : Scope} {es : List (Expr Name negation)}
    {es' : List (Expr Symbol negation)} (done : (Expr.resolveAll scope es).result = .ok es') :
    es' = Expr.renameAll scope.visible.binding es := by
  cases es with
  | nil =>
    cases done
    rfl
  | cons e rest =>
    simp only [Expr.resolveAll, Success.result_bind_eq_ok] at done
    obtain ⟨e', own, rest', others, last⟩ := done
    cases last
    rw [Expr.resolve_eq_rename own, Expr.resolveAll_eq_renameAll others]
    rfl

end

/-- The names of a resolved expression are what the names of the expression refer to. -/
theorem Expr.names_resolve {scope : Scope} {e : Expr Name negation} {e' : Expr Symbol negation}
    (done : (e.resolve scope).result = .ok e') : e'.names = e.names.map scope.visible.binding := by
  rw [Expr.resolve_eq_rename done, Expr.names_rename]

theorem Condition.names_resolve {scope : Scope} {condition : Condition Name negation}
    {condition' : Condition Symbol negation}
    (done : (condition.resolve scope).result = .ok condition') :
    condition'.toExpr.names = condition.toExpr.names.map scope.visible.binding := by
  simp only [Condition.resolve, Success.result_bind_eq_ok] at done
  obtain ⟨left, first, right, second, last⟩ := done
  cases last
  simp only [Condition.toExpr, Expr.names, List.map_append, Expr.names_resolve first,
    Expr.names_resolve second]

/-! ### Declarations on the stack -/

namespace Scope

/-- All visible symbols are where they should be, and those on the stack are among the taken
slots. Nothing on the stack is visible at the top level. -/
structure Tidy (scope : Scope) (depth : Depth) : Prop where
  outside : depth = .topLevel → scope.locals = []
  locals : ∀ entry ∈ scope.locals, entry.2.storage = .stack ∧ entry.2.text ∈ scope.slots
  globals : ∀ symbol ∈ scope.globals, symbol.storage = .global

namespace Tidy

variable {scope : Scope} {depth : Depth}

theorem declare (tidy : scope.Tidy depth) (name : Name) :
    (scope.declare depth name).2.Tidy depth := by
  cases depth with
  | topLevel => exact ⟨tidy.outside, tidy.locals, List.forall_mem_cons.mpr ⟨rfl, tidy.globals⟩⟩
  | nested =>
    have own : (scope.declare .nested name).1.text ∈ (scope.declare .nested name).2.slots :=
      List.mem_cons_self
    refine ⟨nofun, List.forall_mem_cons.mpr ⟨⟨rfl, own⟩, ?_⟩, tidy.globals⟩
    intro entry member
    exact ⟨(tidy.locals entry member).1, List.mem_cons_of_mem _ (tidy.locals entry member).2⟩

theorem declareAll (tidy : scope.Tidy .nested) (names : List Name) :
    (scope.declareAll names).2.Tidy .nested := by
  induction names generalizing scope with
  | nil => exact tidy
  | cons name rest ih => exact ih (tidy.declare name)

/-- A block leaves nothing behind but slots that are taken. -/
theorem leave {inner : Scope} (tidy : scope.Tidy depth) (more : scope.slots ⊆ inner.slots) :
    (scope.leave inner).Tidy depth where
  outside := tidy.outside
  locals entry member := ⟨(tidy.locals entry member).1, more (tidy.locals entry member).2⟩
  globals := tidy.globals

theorem nested (tidy : scope.Tidy depth) : scope.Tidy .nested := { tidy with outside := nofun }

/-- What a name refers to is global or visible on the stack. -/
theorem binding_global_or_mem (tidy : scope.Tidy depth) (name : Name) :
    (scope.visible.binding name).storage = .global ∨
      (name.text, scope.visible.binding name) ∈ scope.locals := by
  unfold Visible.binding
  cases inner : scope.visible.locals.lookup name.text with
  | some symbol =>
    obtain ⟨front, back, parts, -⟩ := List.lookup_eq_some_iff.mp inner
    have member : (name.text, symbol) ∈ scope.locals := by
      change (name.text, symbol) ∈ scope.visible.locals
      simp [parts]
    exact .inr member
  | none =>
    rw [Scope.lookup_globals]
    cases outer : scope.globals.find? fun symbol => symbol.text = name.text with
    | some symbol => exact .inl (tidy.globals symbol (List.mem_of_find?_eq_some outer))
    | none => exact .inl rfl

/-- What a name refers to is global or in a slot that is taken. -/
theorem binding_cases (tidy : scope.Tidy depth) (name : Name) :
    (scope.visible.binding name).storage = .global ∨
      (scope.visible.binding name).text ∈ scope.slots :=
  (tidy.binding_global_or_mem name).imp_right fun member => (tidy.locals _ member).2

/-- The slot of a new variable is different from all that names refer to. -/
theorem declare_ne_binding (tidy : scope.Tidy depth) (name other : Name) :
    (scope.declare .nested name).1 ≠ scope.visible.binding other := by
  intro same
  rcases tidy.binding_cases other with global | taken
  · rw [← same] at global
    cases global
  · rw [← same] at taken
    exact freshSlot_not_mem scope.slots name.text taken

end Tidy

private theorem slots_declare (scope : Scope) (depth : Depth) (name : Name) :
    scope.slots ⊆ (scope.declare depth name).2.slots := by
  cases depth with
  | topLevel => exact fun _ => id
  | nested => exact List.subset_cons_self ..

/-- The scopes that a statement may lead to: it declares nothing, or one name, or it has blocks, in
which slots were taken. -/
inductive Behind (scope : Scope) (depth : Depth) : Scope → Prop where
  | same : Behind scope depth scope
  | declared (name : Name) : Behind scope depth (scope.declare depth name).2
  | left {inner : Scope} (more : scope.slots ⊆ inner.slots) : Behind scope depth (scope.leave inner)

variable {scope scope' : Scope} {depth : Depth}

private theorem Behind.slots (behind : Behind scope depth scope') : scope.slots ⊆ scope'.slots := by
  cases behind with
  | same => exact fun _ => id
  | declared name => exact scope.slots_declare depth name
  | left more => exact more

theorem Behind.tidy (behind : Behind scope depth scope') (tidy : scope.Tidy depth) :
    scope'.Tidy depth := by
  cases behind with
  | same => exact tidy
  | declared name => exact tidy.declare name
  | left more => exact tidy.leave more

end Scope

namespace Stmt

mutual

theorem resolve_behind {s : Stmt Name False negation} {scope : Scope} {depth : Depth}
    {out : Stmt Symbol False negation × Scope} (done : (s.resolve scope depth).result = .ok out) :
    scope.Behind depth out.2 := by
  cases s with
  | declare name =>
    cases done
    exact .declared name
  | define allowed name value => exact allowed.elim
  | ifElse condition ifTrue ifFalse =>
    cases resolve_inv done with
    | @ifElse _ _ _ _ _ _ inner₁ inner₂ test first second =>
      have more : scope.slots ⊆ inner₂.slots :=
        List.Subset.trans (slots_resolveAll first) (slots_resolveAll second)
      exact .left more
  | loop condition body =>
    cases resolve_inv done with
    | loop test round => exact .left (slots_resolveAll round)
  | function name parameters body =>
    cases resolve_inv done
    exact .declared name
  | _ =>
    cases resolve_inv done
    exact .same

/-- Slots that are taken stay taken. -/
theorem slots_resolveAll {stmts : List (Stmt Name False negation)} {scope : Scope} {depth : Depth}
    {out : List (Stmt Symbol False negation) × Scope}
    (done : (resolveAll scope depth stmts).result = .ok out) : scope.slots ⊆ out.2.slots := by
  cases stmts with
  | nil =>
    cases done
    exact fun _ => id
  | cons s rest =>
    obtain ⟨s', rest', middle, behind, own, others, rfl⟩ := resolveAll_cons done
    have first := (resolve_behind own).slots
    have second := slots_resolveAll others
    exact List.Subset.trans first second

end

theorem resolveAll_tidy {stmts : List (Stmt Name False negation)} {scope : Scope} {depth : Depth}
    {out : List (Stmt Symbol False negation) × Scope}
    (done : (resolveAll scope depth stmts).result = .ok out) (tidy : scope.Tidy depth) :
    out.2.Tidy depth := by
  induction stmts generalizing scope out with
  | nil =>
    cases done
    exact tidy
  | cons s rest ih =>
    obtain ⟨s', rest', middle, behind, own, others, rfl⟩ := resolveAll_cons done
    have first : middle.Tidy depth := (resolve_behind own).tidy tidy
    have second : behind.Tidy depth := ih others first
    exact second

end Stmt

end Wabbit.Ast
