import Wabbit.Proofs.Kinds.Statements

/-!
Kinds and scopes. The type checker has one table of kinds for all blocks and functions, but a name is
resolved to the declaration that is visible where it stands, and takes its kind. Main statement: an
accepted program is resolved with all kinds as they are exactly if each name has the kind of the
declaration that is visible there. The type checker does not ask for that.
-/

namespace Wabbit

namespace Ast

/-! ### Visible kinds -/

/-- The kinds of the declarations that are visible at a place, the latest first. -/
abbrev Kinds := List (String × Kind)

namespace Kinds

/-- Whether a name has the kind of its declaration, if one is visible. -/
def admits (kinds : Kinds) (name : Name) : Bool := (kinds.lookup name.text).all (· = name.kind)

/-- What is visible behind a declaration. -/
def declare (kinds : Kinds) (name : Name) : Kinds := (name.text, name.kind) :: kinds

/-- What is visible behind the parameters of a function. -/
def declareAll (kinds : Kinds) : List Name → Kinds
  | [] => kinds
  | name :: rest => (kinds.declare name).declareAll rest

private theorem admits_declare_self (kinds : Kinds) (name : Name) :
    (kinds.declare name).admits name = true := by
  simp [admits, declare]

end Kinds

namespace Stmt

variable {initializers negation : Prop}

/-- What is visible behind a statement of the same block. -/
def kindsBehind (kinds : Kinds) : Stmt Name initializers negation → Kinds
  | declare name | define _ name _ | function name _ _ => kinds.declare name
  | _ => kinds

mutual

/-- Whether all names in a statement have the kind of the declaration that is visible there. A
declaration is visible in its own value. -/
def agrees (kinds : Kinds) : Stmt Name initializers negation → Bool
  | declare _ => true
  | define _ name value => value.names.all (kinds.declare name).admits
  | assign name value => kinds.admits name && value.names.all kinds.admits
  | print value | ret value | eval value => value.names.all kinds.admits
  | ifElse condition ifTrue ifFalse =>
    condition.toExpr.names.all kinds.admits && allAgree kinds ifTrue && allAgree kinds ifFalse
  | loop condition body => condition.toExpr.names.all kinds.admits && allAgree kinds body
  | function name parameters body => allAgree ((kinds.declare name).declareAll parameters) body

def allAgree (kinds : Kinds) : List (Stmt Name initializers negation) → Bool
  | [] => true
  | s :: rest => s.agrees kinds && allAgree (s.kindsBehind kinds) rest

end

end Stmt

/-! ### Folding and splitting -/

namespace Stmt

variable {initializers negation : Prop}

section Expressions

variable {f : Expr Name negation → Expr Name negation}

private theorem kindsBehind_mapExprs (kinds : Kinds) (s : Stmt Name initializers negation) :
    (s.mapExprs f).kindsBehind kinds = s.kindsBehind kinds := by
  cases s <;> rfl

mutual

theorem agrees_mapExprs (same : ∀ e, (f e).names = e.names) (kinds : Kinds)
    (s : Stmt Name initializers negation) : (s.mapExprs f).agrees kinds = s.agrees kinds := by
  have condition (c : Condition Name negation) : (c.map f).toExpr.names = c.toExpr.names :=
    congrArg₂ _ (same c.left) (same c.right)
  cases s with
  | ifElse test ifTrue ifFalse =>
    simp only [mapExprs, agrees, condition, allAgree_mapAllExprs same kinds ifTrue,
      allAgree_mapAllExprs same kinds ifFalse]
  | loop test body => simp only [mapExprs, agrees, condition, allAgree_mapAllExprs same kinds body]
  | function name parameters body =>
    simp only [mapExprs, agrees, allAgree_mapAllExprs same _ body]
  | _ => simp only [mapExprs, agrees, same]

/-- Expressions with other literals leave the kinds of all names as they are. -/
theorem allAgree_mapAllExprs (same : ∀ e, (f e).names = e.names) (kinds : Kinds)
    (stmts : List (Stmt Name initializers negation)) :
    allAgree kinds (mapAllExprs f stmts) = allAgree kinds stmts := by
  cases stmts with
  | nil => rfl
  | cons s rest =>
    simp only [mapAllExprs, allAgree, agrees_mapExprs same kinds s, kindsBehind_mapExprs,
      allAgree_mapAllExprs same _ rest]

end

end Expressions

/-- Folding well kinded statements never fails, and leaves the kinds of all names as they are. -/
theorem foldAll_succeeds {stmts : List (Stmt Name initializers negation)} {result : Kind}
    (kinded : allKinded result stmts = true) :
    ∃ stmts', foldAll stmts = .ok stmts' ∧ allKinded result stmts' = true ∧
      ∀ kinds, allAgree kinds stmts' = allAgree kinds stmts :=
  ⟨mapAllExprs Expr.folded stmts, foldAll_eq_ok_iff.mpr ⟨isKinded_allExprs kinded, rfl⟩,
    allKinded_mapAllExprs_folded kinded,
    fun kinds => allAgree_mapAllExprs Expr.names_folded kinds stmts⟩

mutual

theorem allAgree_split_append (kinds : Kinds) (s : Stmt Name initializers negation)
    (rest : List (Stmt Name False negation)) :
    allAgree kinds (s.split ++ rest) = (s.agrees kinds && allAgree (s.kindsBehind kinds) rest) := by
  cases s with
  | define allowed name value =>
    simp [split, allAgree, agrees, kindsBehind, Kinds.admits_declare_self]
  | ifElse condition ifTrue ifFalse =>
    simp [split, allAgree, agrees, kindsBehind, allAgree_splitAll]
  | loop condition body => simp [split, allAgree, agrees, kindsBehind, allAgree_splitAll]
  | function name parameters body => simp [split, allAgree, agrees, kindsBehind, allAgree_splitAll]
  | _ => simp [split, allAgree, agrees, kindsBehind]

/-- A definition is taken apart into a declaration and an assignment in which it is visible. -/
theorem allAgree_splitAll (kinds : Kinds) (stmts : List (Stmt Name initializers negation)) :
    allAgree kinds (splitAll stmts) = allAgree kinds stmts := by
  cases stmts with
  | nil => rfl
  | cons s rest => rw [splitAll, allAgree_split_append, allAgree_splitAll, allAgree]

end

end Stmt

/-! ### Resolution -/

namespace Scope

/-- The kinds of all that is visible in a scope. -/
def kinds (scope : Scope) : Kinds :=
  (scope.visible.locals ++ scope.visible.globals).map fun entry => (entry.1, entry.2.kind)

theorem lookup_kinds (scope : Scope) (text : String) :
    scope.kinds.lookup text =
      ((scope.visible.locals.lookup text).or (scope.visible.globals.lookup text)).map Symbol.kind := by
  rw [kinds, ← List.lookup_append]
  induction scope.visible.locals ++ scope.visible.globals with
  | nil => rfl
  | cons entry rest ih =>
    obtain ⟨other, symbol⟩ := entry
    simp only [List.map_cons, List.lookup_cons, ih]
    cases text == other <;> rfl

/-- A name refers to something of its own kind exactly if the visible kinds admit it. -/
theorem kind_binding_iff (scope : Scope) (name : Name) :
    (scope.visible.binding name).kind = name.kind ↔ scope.kinds.admits name = true := by
  rw [Kinds.admits, lookup_kinds, Visible.binding]
  cases (scope.visible.locals.lookup name.text).or (scope.visible.globals.lookup name.text) with
  | none => simp [Symbol.global]
  | some symbol => simp

theorem kinds_declare {scope : Scope} {depth : Depth} (outside : depth = .topLevel → scope.locals = [])
    (name : Name) : (scope.declare depth name).2.kinds = scope.kinds.declare name := by
  cases depth with
  | topLevel => simp [kinds, visible, declare, Kinds.declare, outside rfl, Symbol.global]
  | nested => rfl

private theorem kinds_declareAll (scope : Scope) (names : List Name) :
    (scope.declareAll names).2.kinds = scope.kinds.declareAll names := by
  induction names generalizing scope with
  | nil => rfl
  | cons name rest ih => exact ih (scope.declare .nested name).2

/-- A function and its parameters are visible in its body. -/
theorem kinds_function {scope : Scope} {depth : Depth} (outside : depth = .topLevel → scope.locals = [])
    (name : Name) (parameters : List Name) :
    (({ (scope.declare depth name).2 with slots := [] } : Scope).declareAll parameters).2.kinds =
      (scope.kinds.declare name).declareAll parameters := by
  rw [kinds_declareAll]
  exact congrArg (·.declareAll parameters) (kinds_declare outside name)

private theorem kind_declare (scope : Scope) (depth : Depth) (name : Name) :
    (scope.declare depth name).1.kind = name.kind := by
  cases depth <;> rfl

theorem map_kind_declareAll (scope : Scope) (names : List Name) :
    (scope.declareAll names).1.map Symbol.kind = names.map Name.kind := by
  induction names generalizing scope with
  | nil => rfl
  | cons name rest ih => exact congrArg (name.kind :: ·) (ih (scope.declare .nested name).2)

theorem Behind.outside {scope scope' : Scope} {depth : Depth} (behind : Behind scope depth scope')
    (outside : depth = .topLevel → scope.locals = []) : depth = .topLevel → scope'.locals = [] := by
  rintro rfl
  cases behind <;> exact outside rfl

end Scope

variable {negation : Prop}

namespace Expr

variable {scope : Scope}

/-- An expression keeps its kinds when it is resolved exactly if the visible kinds admit its names. -/
theorem rename_kind_resolve_iff {e : Expr Name negation} {e' : Expr Symbol negation}
    (done : (e.resolve scope).result = .ok e') :
    e'.rename Named.kind = e.rename Named.kind ↔ e.names.all scope.kinds.admits = true := by
  rw [resolve_eq_rename done, rename_rename, rename_eq_rename_iff, List.all_eq_true]
  exact forall₂_congr fun n _ => scope.kind_binding_iff n

theorem resolve_succeeds {e : Expr Name negation} (kinded : e.isKinded = true)
    (agree : e.names.all scope.kinds.admits = true) :
    ∃ e', (e.resolve scope).result = .ok e' := by
  have same : ∀ n ∈ e.names, Named.kind (scope.visible.binding n) = Named.kind n :=
    fun n member => (scope.kind_binding_iff n).mpr (List.all_eq_true.mp agree n member)
  exact ⟨_, resolve_of_isKinded (by rw [isKinded_rename same, kinded])⟩

end Expr

namespace Condition

variable {scope : Scope} {condition : Condition Name negation}

theorem rename_kind_resolve_iff {condition' : Condition Symbol negation}
    (done : (condition.resolve scope).result = .ok condition') :
    condition'.rename Named.kind = condition.rename Named.kind ↔
      condition.toExpr.names.all scope.kinds.admits = true := by
  simp only [resolve, Success.result_bind_eq_ok] at done
  obtain ⟨left, first, right, second, last⟩ := done
  cases last
  simp [rename, toExpr, Expr.names, Expr.rename_kind_resolve_iff first,
    Expr.rename_kind_resolve_iff second]

private theorem resolve_succeeds (kinded : condition.toExpr.isKinded = true)
    (agree : condition.toExpr.names.all scope.kinds.admits = true) :
    ∃ condition', (condition.resolve scope).result = .ok condition' := by
  simp only [toExpr, Expr.isKinded, Bool.and_eq_true] at kinded
  simp only [toExpr, Expr.names, List.all_append, Bool.and_eq_true] at agree
  obtain ⟨left, first⟩ := Expr.resolve_succeeds kinded.1 agree.1
  obtain ⟨right, second⟩ := Expr.resolve_succeeds kinded.2 agree.2
  refine ⟨⟨condition.op, left, right⟩, ?_⟩
  simp only [resolve, Success.result_bind_eq_ok]
  exact ⟨left, first, right, second, rfl⟩

end Condition

namespace Stmt

theorem kinds_resolve {s : Stmt Name False negation} {scope : Scope} {depth : Depth}
    {out : Stmt Symbol False negation × Scope} (done : (s.resolve scope depth).result = .ok out)
    (outside : depth = .topLevel → scope.locals = []) :
    out.2.kinds = s.kindsBehind scope.kinds := by
  cases resolve_inv done with
  | declare name => exact Scope.kinds_declare outside name
  | function round => exact Scope.kinds_declare outside _
  | _ => rfl

mutual

/-- A statement keeps its kinds when it is resolved exactly if its names have the kinds that are
visible. -/
theorem rename_kind_resolve_iff {s : Stmt Name False negation} {scope : Scope} {depth : Depth}
    {out : Stmt Symbol False negation × Scope} (done : (s.resolve scope depth).result = .ok out)
    (outside : depth = .topLevel → scope.locals = []) :
    out.1.rename Named.kind = s.rename Named.kind ↔ s.agrees scope.kinds = true := by
  cases s with
  | declare name =>
    cases resolve_inv done
    simp [rename, agrees, Named.kind, Scope.kind_declare]
  | define allowed name value => exact allowed.elim
  | assign name value =>
    cases resolve_inv done with
    | assign target own =>
      rw [Scope.result_lookup] at target
      cases target
      simp only [rename, agrees, assign.injEq, Bool.and_eq_true, Expr.rename_kind_resolve_iff own,
        ← scope.kind_binding_iff name]
      rfl
  | print value =>
    cases resolve_inv done with
    | print own => simp only [rename, agrees, print.injEq, Expr.rename_kind_resolve_iff own]
  | ret value =>
    cases resolve_inv done with
    | ret own => simp only [rename, agrees, ret.injEq, Expr.rename_kind_resolve_iff own]
  | eval value =>
    cases resolve_inv done with
    | eval own => simp only [rename, agrees, eval.injEq, Expr.rename_kind_resolve_iff own]
  | ifElse condition ifTrue ifFalse =>
    cases resolve_inv done with
    | ifElse test first second =>
      have left := renameAll_kind_resolveAll_iff first nofun
      have right := renameAll_kind_resolveAll_iff second nofun
      simp only [rename, agrees, ifElse.injEq, Bool.and_eq_true, and_assoc,
        Condition.rename_kind_resolve_iff test, left, right]
      rfl
  | loop condition body =>
    cases resolve_inv done with
    | loop test round =>
      simp only [rename, agrees, loop.injEq, Bool.and_eq_true,
        Condition.rename_kind_resolve_iff test, renameAll_kind_resolveAll_iff round nofun]
  | function name parameters body =>
    cases resolve_inv done with
    | function round =>
      have inner := renameAll_kind_resolveAll_iff round nofun
      rw [Scope.kinds_function outside] at inner
      simp only [rename, agrees, function.injEq, inner]
      exact ⟨fun same => same.2.2, fun same =>
        ⟨Scope.kind_declare scope depth name, Scope.map_kind_declareAll _ parameters, same⟩⟩

theorem renameAll_kind_resolveAll_iff {stmts : List (Stmt Name False negation)} {scope : Scope}
    {depth : Depth} {out : List (Stmt Symbol False negation) × Scope}
    (done : (resolveAll scope depth stmts).result = .ok out)
    (outside : depth = .topLevel → scope.locals = []) :
    renameAll Named.kind out.1 = renameAll Named.kind stmts ↔ allAgree scope.kinds stmts = true := by
  cases stmts with
  | nil =>
    cases done
    simp [renameAll, allAgree]
  | cons s rest =>
    obtain ⟨s', rest', middle, behind, own, others, rfl⟩ := resolveAll_cons done
    have first := rename_kind_resolve_iff own outside
    have second := renameAll_kind_resolveAll_iff others ((resolve_behind own).outside outside)
    rw [kinds_resolve own outside] at second
    simp only [renameAll, allAgree, List.cons.injEq, Bool.and_eq_true, first, second]

end

mutual

/-- A well kinded statement can be resolved if its names have the kinds that are visible. -/
theorem resolve_succeeds {s : Stmt Name False negation} (scope : Scope) (depth : Depth) {result : Kind}
    (kinded : s.isKinded result = true) (agree : s.agrees scope.kinds = true)
    (outside : depth = .topLevel → scope.locals = []) :
    ∃ out, (s.resolve scope depth).result = .ok out := by
  cases s with
  | declare name => exact ⟨_, rfl⟩
  | define allowed name value => exact allowed.elim
  | assign name value =>
    simp only [isKinded, Bool.and_eq_true] at kinded
    simp only [agrees, Bool.and_eq_true] at agree
    obtain ⟨value', own⟩ := Expr.resolve_succeeds kinded.1 agree.2
    simp only [resolve, Success.result_bind_eq_ok]
    exact ⟨_, _, scope.result_lookup name, value', own, rfl⟩
  | print value | eval value =>
    obtain ⟨value', own⟩ := Expr.resolve_succeeds kinded agree
    simp only [resolve, Success.result_bind_eq_ok]
    exact ⟨_, value', own, rfl⟩
  | ret value =>
    simp only [isKinded, Bool.and_eq_true] at kinded
    obtain ⟨value', own⟩ := Expr.resolve_succeeds kinded.1 agree
    simp only [resolve, Success.result_bind_eq_ok]
    exact ⟨_, value', own, rfl⟩
  | ifElse condition ifTrue ifFalse =>
    simp only [isKinded, Bool.and_eq_true] at kinded
    simp only [agrees, Bool.and_eq_true] at agree
    obtain ⟨condition', test⟩ := Condition.resolve_succeeds kinded.1.1 agree.1.1
    obtain ⟨⟨arm₁, inner₁⟩, first⟩ :=
      resolveAll_succeeds scope .nested kinded.1.2 agree.1.2 nofun
    obtain ⟨⟨arm₂, inner₂⟩, second⟩ :=
      resolveAll_succeeds (scope.leave inner₁) .nested kinded.2 agree.2 nofun
    simp only [resolve, Success.result_bind_eq_ok, Prod.exists]
    exact ⟨_, _, condition', test, arm₁, inner₁, first, arm₂, inner₂, second, rfl⟩
  | loop condition body =>
    simp only [isKinded, Bool.and_eq_true] at kinded
    simp only [agrees, Bool.and_eq_true] at agree
    obtain ⟨condition', test⟩ := Condition.resolve_succeeds kinded.1 agree.1
    obtain ⟨⟨body', inner⟩, round⟩ := resolveAll_succeeds scope .nested kinded.2 agree.2 nofun
    simp only [resolve, Success.result_bind_eq_ok, Prod.exists]
    exact ⟨_, _, condition', test, body', inner, round, rfl⟩
  | function name parameters body =>
    rw [agrees, ← Scope.kinds_function outside] at agree
    obtain ⟨⟨body', inner⟩, round⟩ := resolveAll_succeeds _ .nested kinded agree nofun
    simp only [resolve, Success.result_bind_eq_ok, Prod.exists]
    exact ⟨_, _, body', inner, round, rfl⟩

theorem resolveAll_succeeds {stmts : List (Stmt Name False negation)} (scope : Scope) (depth : Depth)
    {result : Kind} (kinded : allKinded result stmts = true)
    (agree : allAgree scope.kinds stmts = true) (outside : depth = .topLevel → scope.locals = []) :
    ∃ out, (resolveAll scope depth stmts).result = .ok out := by
  cases stmts with
  | nil => exact ⟨_, rfl⟩
  | cons s rest =>
    simp only [allKinded, Bool.and_eq_true] at kinded
    simp only [allAgree, Bool.and_eq_true] at agree
    obtain ⟨⟨s', middle⟩, own⟩ := resolve_succeeds scope depth kinded.1 agree.1 outside
    have visible : middle.kinds = s.kindsBehind scope.kinds := kinds_resolve own outside
    obtain ⟨⟨rest', behind⟩, others⟩ := resolveAll_succeeds middle depth kinded.2
      (visible ▸ agree.2) ((resolve_behind own).outside outside)
    simp only [resolveAll, Success.result_bind_eq_ok, Prod.exists]
    exact ⟨_, _, s', middle, own, rest', behind, others, rfl⟩

end

end Stmt

/-! ### Programs -/

namespace Script

/-- A program with nothing but their kinds in place of its names. -/
def kinds {ν : Type} [Named ν] {initializers : Prop} (script : Script ν initializers negation) :
    Script Kind initializers negation :=
  Stmt.renameAll Named.kind script

/-- Whether a program is well kinded. Loose statements return integers. -/
def isKinded {ν : Type} [Named ν] {initializers : Prop} (script : Script ν initializers negation) :
    Bool :=
  Stmt.allKinded .integer script

/-- Whether every name of a program has the kind of the declaration that is visible there. -/
def agrees {initializers : Prop} (script : Script Name initializers negation) : Bool :=
  Stmt.allAgree [] script

private theorem isKinded_kinds {ν : Type} [Named ν] {initializers : Prop}
    (script : Script ν initializers negation) : script.kinds.isKinded = script.isKinded :=
  Stmt.allKinded_renameAll (f := (Named.kind : ν → Kind)) (fun _ => rfl) .integer script

/-- A well kinded program is resolved with all its kinds exactly if its names have the kinds that are
visible. -/
theorem resolve_kinds_iff {script : Script Name False negation} (kinded : script.isKinded = true) :
    (∃ resolved, script.resolve.result = .ok resolved ∧ resolved.kinds = script.kinds ∧
      resolved.isKinded = true) ↔ script.agrees = true := by
  constructor
  · rintro ⟨resolved, done, same, -⟩
    obtain ⟨⟨_, scope⟩, own, last⟩ := Success.result_bind_eq_ok.mp done
    cases last
    exact (Stmt.renameAll_kind_resolveAll_iff own fun _ => rfl).mp same
  · intro agree
    obtain ⟨⟨resolved, scope⟩, own⟩ := Stmt.resolveAll_succeeds {} .topLevel kinded agree
      fun _ => rfl
    have same : kinds resolved = script.kinds :=
      (Stmt.renameAll_kind_resolveAll_iff own fun _ => rfl).mpr agree
    refine ⟨resolved, Success.result_bind_eq_ok.mpr ⟨_, own, rfl⟩, same, ?_⟩
    rw [← isKinded_kinds, same, isKinded_kinds, kinded]

/-- An accepted program is folded, and then resolved with all kinds as they are, and with every
assigned value in the kind of its target and every returned one in that of its function, exactly if
every name has the kind of the declaration that is visible where it stands. -/
theorem resolved_kinds_iff {source : String} {script : Parsed} (accepted : frontEnd source = .ok script) :
    ∃ folded, script.fold = .ok folded ∧
      ((∃ resolved, folded.split.resolve.result = .ok resolved ∧
        resolved.kinds = folded.split.kinds ∧ resolved.isKinded = true) ↔ script.agrees = true) := by
  obtain ⟨folded, done, kinded, same⟩ := Stmt.foldAll_succeeds (frontEnd_allKinded accepted)
  have kept : (split folded).isKinded = true :=
    (Stmt.allKinded_splitAll .integer folded).trans kinded
  have agree : (split folded).agrees = script.agrees :=
    (Stmt.allAgree_splitAll [] folded).trans (same [])
  exact ⟨folded, done, agree ▸ resolve_kinds_iff kept⟩

/-- A loop that declares its own variable by the global one, and a function with names of another
kind. -/
theorem resolved_kinds_iff_shadowing :
    let source := "var x = 1; func f(y float) float \x7b var z = y + 0.5; return -z; \x7d" ++
      " while x < 3.0 \x7b var x = x + 2 * 3; print f(2.5); \x7d x = 4;"
    ∃ script folded resolved, frontEnd source = .ok script ∧ script.agrees = true ∧
      script.fold = .ok folded ∧ folded.split.resolve.result = .ok resolved ∧
      resolved.kinds = folded.split.kinds ∧ resolved.isKinded = true := by
  intro source
  have known : (frontEnd source).toOption.map agrees = some true := by decide +kernel
  obtain ⟨script, accepted, agree⟩ := Option.map_eq_some_iff.mp known
  have accepted := Success.toOption_eq_some.mp accepted
  obtain ⟨folded, done, outcome⟩ := resolved_kinds_iff accepted
  obtain ⟨resolved, resolves, same, kinded⟩ := outcome.mpr agree
  exact ⟨script, folded, resolved, accepted, agree, done, resolves, same, kinded⟩

/-- A declaration in a branch changes the kind that the type checker knows of a global variable, but
not the variable that the name refers to behind the branch. So accepted operands have different kinds
once they are resolved, and an accepted float is stored in an integer. -/
theorem accepted_kinds_differ :
    let start := "var x = 1; if x < 2 \x7b var x = 2.5; print x; \x7d "
    (∃ script folded, frontEnd (start ++ "print x + 1.5;") = .ok script ∧
      script.fold = .ok folded ∧ folded.split.resolve.result = .error ⟨.add, .integer, .float⟩) ∧
    ∃ script folded resolved, frontEnd (start ++ "x = 3.5;") = .ok script ∧
      script.fold = .ok folded ∧ folded.split.resolve.result = .ok resolved ∧
      resolved.isKinded = false := by
  intro start
  have parts (source : String) (outcome : Except Mismatch Bool)
      (known : ((frontEnd source).toOption.bind fun script => script.fold.toOption.map fun folded =>
        (split folded).resolve.result.map isKinded) = some outcome) :
      ∃ script folded, frontEnd source = .ok script ∧ script.fold = .ok folded ∧
        (split folded).resolve.result.map isKinded = outcome := by
    obtain ⟨script, accepted, known⟩ := Option.bind_eq_some_iff.mp known
    obtain ⟨folded, done, known⟩ := Option.map_eq_some_iff.mp known
    exact ⟨script, folded, Success.toOption_eq_some.mp accepted, Success.toOption_eq_some.mp done,
      known⟩
  constructor
  · obtain ⟨script, folded, accepted, done, fails⟩ := parts (start ++ "print x + 1.5;")
      (.error ⟨.add, .integer, .float⟩) (by decide +kernel)
    refine ⟨script, folded, accepted, done, ?_⟩
    cases outcome : (split folded).resolve.result with
    | error mismatch => simpa [outcome, Except.map] using fails
    | ok resolved => simp [outcome, Except.map] at fails
  · obtain ⟨script, folded, accepted, done, stores⟩ := parts (start ++ "x = 3.5;") (.ok false)
      (by decide +kernel)
    cases outcome : (split folded).resolve.result with
    | error mismatch => simp [outcome, Except.map] at stores
    | ok resolved =>
      refine ⟨script, folded, resolved, accepted, done, outcome, ?_⟩
      simpa [outcome, Except.map] using stores

end Script

end Ast

end Wabbit
