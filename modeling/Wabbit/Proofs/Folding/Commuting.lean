import Wabbit.Compiler
import Wabbit.Proofs.Folding.Statements
import Wabbit.Proofs.Lowering.Sound

/-!
Folding and the two steps behind it. Main statement: a program may be folded before or after its
declarations are taken apart, and before or after its names are resolved. What comes out is the same
program or the same error, and the same warnings.
-/

namespace Wabbit

/-- What follows a computation matters only on the result that it has. -/
theorem Logged.bind_congr {ω ε α β : Type} {x : Logged ω ε α} {f g : α → Logged ω ε β}
    (same : ∀ a, x.result = .ok a → f a = g a) : x >>= f = x >>= g := by
  obtain ⟨log, error | a⟩ := x
  · rfl
  · change bind _ f = bind _ g
    simp only [bind, same a rfl]

namespace Ast

variable {negation : Prop}

/-! ### Expressions -/

namespace Expr

section Renaming

variable {ν μ : Type} (f : ν → μ)

private theorem literal?_rename (op : Arithmetic) (left right : Expr ν negation) :
    literal? op (left.rename f) (right.rename f) = (literal? op left right).map (rename f) := by
  cases left with
  | int first =>
    cases right with
    | int second =>
      simp only [rename, literal?, Option.map_map]
      rfl
    | _ => rfl
  | float first => cases right <;> rfl
  | _ => rfl

private theorem foldNeg_rename (allowed : negation) (e : Expr ν negation) :
    (e.foldNeg allowed).rename f = (e.rename f).foldNeg allowed := by
  cases e with
  | int value =>
    simp only [rename, foldNeg]
    split <;> rfl
  | _ => rfl

end Renaming

section Resolution

variable (scope : Scope)

/-- What two operands amount to is resolved as an operator on them is, and to what the resolved
operands amount to. -/
theorem resolve_literal? (op : Arithmetic) (left right : Expr Name negation) :
    ((literal? op left right).getD (.arith op left right)).resolve scope = (do
      let first ← left.resolve scope
      let second ← right.resolve scope
      Logged.ofExcept ((arithmetic op first second).map fun e =>
        (literal? op first second).getD e)) := by
  cases amounts : literal? op left right with
  | none =>
    rw [Option.getD_none, resolve]
    refine Logged.bind_congr fun first inLeft => Logged.bind_congr fun second inRight => ?_
    have none : literal? op first second = none := by
      rw [resolve_eq_rename inLeft, resolve_eq_rename inRight, literal?_rename, amounts]
      rfl
    rw [none]
    cases arithmetic op first second <;> rfl
  | some literal =>
    rw [Option.getD_some]
    cases literal?_inv amounts with
    | int computed =>
      simp [resolve, literal?, arithmetic, computed, kind, Except.map]
      rfl
    | float x y =>
      simp [resolve, literal?, arithmetic, kind, Except.map]
      rfl

private theorem resolve_foldNeg (allowed : negation) (e : Expr Name negation) :
    (e.foldNeg allowed).resolve scope = foldNeg allowed <$> e.resolve scope := by
  by_cases kept : e.foldNeg allowed = .neg allowed e
  · rw [kept, resolve, map_eq_pure_bind]
    refine Logged.bind_congr fun inner own => ?_
    rw [resolve_eq_rename own, ← foldNeg_rename, kept, rename]
  · cases e with
    | int value =>
      simp only [foldNeg, ite_eq_right_iff, reduceCtorEq, imp_false, Decidable.not_not] at kept
      simp [foldNeg, kept, resolve]
    | float value => rfl
    | _ => exact absurd rfl kept

mutual

/-- A folded expression is resolved to the folded result, with the same warnings, or fails with the
same error. -/
theorem resolve_folded (e : Expr Name negation) :
    e.folded.resolve scope = folded <$> e.resolve scope := by
  cases e with
  | arith op left right =>
    rw [folded, resolve_literal?, resolve_folded left, resolve_folded right, resolve]
    simp only [map_eq_pure_bind, bind_assoc, pure_bind]
    refine Logged.bind_congr fun first _ => Logged.bind_congr fun second _ => ?_
    unfold arithmetic
    rw [kind_folded, kind_folded]
    split <;> rfl
  | compare op left right =>
    simp only [folded, resolve, resolve_folded left, resolve_folded right, map_eq_pure_bind,
      bind_assoc, pure_bind]
  | call function arguments =>
    simp only [folded, resolve, resolveAll_allFolded arguments, map_eq_pure_bind, bind_assoc,
      pure_bind]
  | neg allowed inner =>
    simp only [folded, resolve, resolve_foldNeg, resolve_folded inner, map_eq_pure_bind, bind_assoc,
      pure_bind]
  | name n => simp only [folded, resolve, map_eq_pure_bind, bind_assoc, pure_bind]
  | _ => rfl

theorem resolveAll_allFolded (es : List (Expr Name negation)) :
    resolveAll scope (allFolded es) = allFolded <$> resolveAll scope es := by
  cases es with
  | nil => rfl
  | cons e rest =>
    simp only [allFolded, resolveAll, resolve_folded e, resolveAll_allFolded rest, map_eq_pure_bind,
      bind_assoc, pure_bind]

end

end Resolution

end Expr

/-! ### Statements -/

namespace Stmt

variable {ν : Type} {initializers : Prop}

section Splitting

theorem mapAllExprs_append (f : Expr ν negation → Expr ν negation)
    (front back : List (Stmt ν initializers negation)) :
    mapAllExprs f (front ++ back) = mapAllExprs f front ++ mapAllExprs f back := by
  induction front with
  | nil => rfl
  | cons s rest ih => simp only [List.cons_append, mapAllExprs, ih]

theorem allExprs_append (front back : List (Stmt ν initializers negation)) :
    allExprs (front ++ back) = allExprs front ++ allExprs back := by
  induction front with
  | nil => rfl
  | cons s rest ih => simp only [List.cons_append, allExprs, ih, List.append_assoc]

mutual

theorem mapAllExprs_split (f : Expr ν negation → Expr ν negation)
    (s : Stmt ν initializers negation) : mapAllExprs f s.split = (s.mapExprs f).split := by
  cases s with
  | ifElse condition ifTrue ifFalse =>
    simp only [split, mapAllExprs, mapExprs, mapAllExprs_splitAll f ifTrue,
      mapAllExprs_splitAll f ifFalse]
  | loop condition body => simp only [split, mapAllExprs, mapExprs, mapAllExprs_splitAll f body]
  | function name parameters body =>
    simp only [split, mapAllExprs, mapExprs, mapAllExprs_splitAll f body]
  | _ => rfl

/-- Expressions may be changed before or after declarations are taken apart. -/
theorem mapAllExprs_splitAll (f : Expr ν negation → Expr ν negation)
    (stmts : List (Stmt ν initializers negation)) :
    mapAllExprs f (splitAll stmts) = splitAll (mapAllExprs f stmts) := by
  cases stmts with
  | nil => rfl
  | cons s rest =>
    rw [splitAll, mapAllExprs_append, mapAllExprs_split f s, mapAllExprs_splitAll f rest, mapAllExprs,
      splitAll]

end

mutual

theorem allExprs_split (s : Stmt ν initializers negation) : allExprs s.split = s.exprs := by
  cases s with
  | ifElse condition ifTrue ifFalse =>
    simp only [split, allExprs, exprs, allExprs_splitAll ifTrue, allExprs_splitAll ifFalse,
      List.append_nil]
  | loop condition body | function name parameters body =>
    simp only [split, allExprs, exprs, allExprs_splitAll body, List.append_nil]
  | _ => rfl

/-- Taking declarations apart leaves all expressions as they are. -/
theorem allExprs_splitAll (stmts : List (Stmt ν initializers negation)) :
    allExprs (splitAll stmts) = allExprs stmts := by
  cases stmts with
  | nil => rfl
  | cons s rest => rw [splitAll, allExprs_append, allExprs_split s, allExprs_splitAll rest, allExprs]

end

end Splitting

section Resolution

mutual

theorem resolve_mapExprs_folded (scope : Scope) (depth : Depth) (s : Stmt Name False negation) :
    (s.mapExprs Expr.folded).resolve scope depth =
      (fun out => (out.1.mapExprs Expr.folded, out.2)) <$> s.resolve scope depth := by
  have test (condition : Condition Name negation) : (condition.map Expr.folded).resolve scope =
      Condition.map Expr.folded <$> condition.resolve scope := by
    simp only [Condition.map, Condition.resolve, Expr.resolve_folded, map_eq_pure_bind, bind_assoc,
      pure_bind]
  cases s with
  | declare name => rfl
  | define allowed name value => exact allowed.elim
  | ifElse condition ifTrue ifFalse =>
    simp only [mapExprs, resolve, test, resolveAll_mapAllExprs_folded _ _ ifTrue,
      resolveAll_mapAllExprs_folded _ _ ifFalse, map_eq_pure_bind, bind_assoc, pure_bind]
  | loop condition body =>
    simp only [mapExprs, resolve, test, resolveAll_mapAllExprs_folded _ _ body, map_eq_pure_bind,
      bind_assoc, pure_bind]
  | function name parameters body =>
    simp only [mapExprs, resolve, resolveAll_mapAllExprs_folded _ _ body, map_eq_pure_bind, bind_assoc,
      pure_bind]
  | _ =>
    simp only [mapExprs, resolve, Expr.resolve_folded, map_eq_pure_bind, bind_assoc, pure_bind]

/-- Folded statements are resolved to the folded results, in the same scopes. -/
theorem resolveAll_mapAllExprs_folded (scope : Scope) (depth : Depth)
    (stmts : List (Stmt Name False negation)) :
    resolveAll scope depth (mapAllExprs Expr.folded stmts) =
      (fun out => (mapAllExprs Expr.folded out.1, out.2)) <$> resolveAll scope depth stmts := by
  cases stmts with
  | nil => rfl
  | cons s rest =>
    simp only [mapAllExprs, resolveAll, resolve_mapExprs_folded _ _ s,
      resolveAll_mapAllExprs_folded _ _ rest, map_eq_pure_bind, bind_assoc, pure_bind]

end

mutual

theorem exprs_of_isSound {s : Stmt Symbol False negation} {depth : Depth}
    (sound : s.isSound depth = true) : ∀ e ∈ s.exprs, e.isKinded = true := by
  cases s with
  | declare symbol => exact nofun
  | define allowed name value => exact allowed.elim
  | ifElse condition ifTrue ifFalse =>
    simp only [isSound, Bool.and_eq_true] at sound
    rw [exprs, List.forall_mem_cons, List.forall_mem_append]
    exact ⟨sound.1.1, allExprs_of_allSound sound.1.2, allExprs_of_allSound sound.2⟩
  | loop condition body =>
    simp only [isSound, Bool.and_eq_true] at sound
    rw [exprs, List.forall_mem_cons]
    exact ⟨sound.1, allExprs_of_allSound sound.2⟩
  | function name parameters body =>
    simp only [isSound, Bool.and_eq_true] at sound
    exact allExprs_of_allSound sound.2
  | _ => exact List.forall_mem_singleton.mpr sound

theorem allExprs_of_allSound {stmts : List (Stmt Symbol False negation)} {depth : Depth}
    (sound : allSound depth stmts = true) : ∀ e ∈ allExprs stmts, e.isKinded = true := by
  cases stmts with
  | nil => exact nofun
  | cons s rest =>
    simp only [allSound, Bool.and_eq_true] at sound
    rw [allExprs, List.forall_mem_append]
    exact ⟨exprs_of_isSound sound.1, allExprs_of_allSound sound.2⟩

end

end Resolution

end Stmt

/-! ### Programs -/

namespace Script

private theorem resolve_mapAllExprs_folded (script : Split) :
    Script.resolve (Stmt.mapAllExprs Expr.folded script) =
      Stmt.mapAllExprs Expr.folded <$> script.resolve := by
  simp only [Script.resolve, Stmt.resolveAll_mapAllExprs_folded, map_eq_pure_bind, bind_assoc,
    pure_bind]

/-- Whatever the resolution gives can be folded. -/
theorem fold_resolve {script : Split} {resolved : Resolved}
    (done : script.resolve.result = .ok resolved) :
    resolved.fold = .ok (Stmt.mapAllExprs Expr.folded resolved) := by
  simp only [Script.resolve, Success.result_bind_eq_ok, Prod.exists] at done
  obtain ⟨stmts, behind, all, last⟩ := done
  cases last
  exact Stmt.foldAll_eq_ok_iff.mpr ⟨Stmt.allExprs_of_allSound (Stmt.resolveAll_sound all), rfl⟩

/-- With warnings and without them, folded programs are resolved to the folded results. -/
theorem resolveNames_mapAllExprs_folded (options : Options) (script : Split) :
    resolveNames options (Stmt.mapAllExprs Expr.folded script) = (do
      let resolved ← resolveNames options script
      Logged.ofExcept resolved.fold) := by
  have result : (resolveNames options script).result = script.resolve.result := by
    unfold resolveNames
    split <;> rfl
  calc resolveNames options (Stmt.mapAllExprs Expr.folded script)
      = Stmt.mapAllExprs Expr.folded <$> resolveNames options script := by
        unfold resolveNames
        simp only [resolve_mapAllExprs_folded]
        split
        · rfl
        · obtain ⟨log, error | resolved⟩ := script.resolve <;> rfl
    _ = (do
        let resolved ← resolveNames options script
        Logged.ofExcept resolved.fold) := by
        rw [map_eq_pure_bind]
        refine Logged.bind_congr fun resolved done => ?_
        rw [fold_resolve (result ▸ done)]
        rfl

/-- A program whose operators have operands of one kind is folded and split to the same program in
either order. With its declarations taken apart, it is resolved and folded to the same program, or
with the same error, in either order, and the same warnings are given. -/
theorem fold_commutes {script : Parsed} (kinded : ∀ e ∈ Stmt.allExprs script, e.isKinded = true)
    (options : Options) :
    ∃ folded, script.fold = .ok folded ∧ script.split.fold = .ok folded.split ∧
      resolveNames options folded.split = (do
        let resolved ← resolveNames options script.split
        Logged.ofExcept resolved.fold) := by
  have apart : ∀ e ∈ Stmt.allExprs script.split, e.isKinded = true := by
    rw [Script.split, Stmt.allExprs_splitAll]
    exact kinded
  have same : Stmt.mapAllExprs Expr.folded script.split =
      Script.split (Stmt.mapAllExprs Expr.folded script) := Stmt.mapAllExprs_splitAll _ script
  refine ⟨Stmt.mapAllExprs Expr.folded script, ?_, ?_, ?_⟩
  · exact Stmt.foldAll_eq_ok_iff.mpr ⟨kinded, rfl⟩
  · exact Stmt.foldAll_eq_ok_iff.mpr ⟨apart, same.symm⟩
  · rw [← same]
    exact resolveNames_mapAllExprs_folded options script.split

/-- A name without a declaration and one that is resolved to a variable of another kind, next to
operators that are folded. -/
theorem fold_commutes_mismatch :
    let three : Expr Name True := .arith .add (.int 1) (.int 2)
    let script : Parsed :=
      [.define trivial ⟨"x", .float⟩ (.neg trivial (.float .zero)),
        .loop ⟨.less, .name ⟨"u", .integer⟩, .neg trivial three⟩
          [.print (.arith .add (.name ⟨"x", .integer⟩) three)]]
    let options : Options := { reportUndeclared := true }
    (∀ e ∈ Stmt.allExprs script, e.isKinded = true) ∧
      resolveNames options script.split = ⟨[.undeclared "u"], .error ⟨.add, .float, .integer⟩⟩ ∧
      ∃ folded, script.fold = .ok folded ∧ script.split.fold = .ok folded.split ∧
        resolveNames options folded.split = (do
          let resolved ← resolveNames options script.split
          Logged.ofExcept resolved.fold) := by
  intro three script options
  have kinded : ∀ e ∈ Stmt.allExprs script, e.isKinded = true := by decide
  exact ⟨kinded, rfl, fold_commutes kinded options⟩

end Script

end Ast

end Wabbit
