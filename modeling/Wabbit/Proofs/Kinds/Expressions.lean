import Wabbit.Ast.Folding
import Wabbit.Items.Negation
import Wabbit.Proofs.Names.Visible

/-!
Expressions whose operators are applied to operands of one kind. Resolution gives no other ones, and
on them neither folding nor writing negations as subtractions can fail or change a kind.
-/

namespace Wabbit.Ast.Expr

variable {ν μ : Type} {negation : Prop} [Named ν] [Named μ]

mutual

/-- Whether every arithmetic operator in an expression has operands of one kind. -/
def isKinded : Expr ν negation → Bool
  | int _ | float _ | name _ => true
  | arith _ left right => left.kind = right.kind && left.isKinded && right.isKinded
  | compare _ left right => left.isKinded && right.isKinded
  | call _ arguments => allKinded arguments
  | neg _ inner => inner.isKinded

def allKinded : List (Expr ν negation) → Bool
  | [] => true
  | e :: rest => e.isKinded && allKinded rest

end

theorem arithmetic_eq_ok {op : Arithmetic} {left right e : Expr ν negation} :
    arithmetic op left right = .ok e ↔ left.kind = right.kind ∧ e = .arith op left right := by
  unfold arithmetic
  split <;> simp [*, eq_comm]

@[simp]
theorem kind_zero (kind : Kind) : (zero kind : Expr ν negation).kind = kind := by
  cases kind <;> rfl

@[simp]
theorem isKinded_zero (kind : Kind) : (zero kind : Expr ν negation).isKinded = true := by
  cases kind <;> rfl

/-! ### Resolution -/

section Resolution

variable {scope : Scope}

mutual

/-- An expression is resolved if its operands have one kind with what its names refer to. -/
theorem resolve_of_isKinded {e : Expr Name negation}
    (kinded : (e.rename scope.visible.binding).isKinded = true) :
    (e.resolve scope).result = .ok (e.rename scope.visible.binding) := by
  cases e with
  | name n =>
    simp only [resolve, Success.result_bind_eq_ok, Scope.result_lookup]
    exact ⟨_, rfl, rfl⟩
  | arith op left right =>
    simp only [rename, isKinded, Bool.and_eq_true, decide_eq_true_eq] at kinded
    simp only [resolve, Success.result_bind_eq_ok]
    exact ⟨_, resolve_of_isKinded kinded.1.2, _, resolve_of_isKinded kinded.2,
      arithmetic_eq_ok.mpr ⟨kinded.1.1, rfl⟩⟩
  | compare op left right =>
    simp only [rename, isKinded, Bool.and_eq_true] at kinded
    simp only [resolve, Success.result_bind_eq_ok]
    exact ⟨_, resolve_of_isKinded kinded.1, _, resolve_of_isKinded kinded.2, rfl⟩
  | call function arguments =>
    simp only [resolve, Success.result_bind_eq_ok, Scope.result_lookup]
    exact ⟨_, rfl, _, resolveAll_of_allKinded kinded, rfl⟩
  | neg allowed inner =>
    simp only [resolve, Success.result_bind_eq_ok]
    exact ⟨_, resolve_of_isKinded (e := inner) kinded, rfl⟩
  | _ => rfl

theorem resolveAll_of_allKinded {es : List (Expr Name negation)}
    (kinded : allKinded (renameAll scope.visible.binding es) = true) :
    (resolveAll scope es).result = .ok (renameAll scope.visible.binding es) := by
  cases es with
  | nil => rfl
  | cons e rest =>
    simp only [renameAll, allKinded, Bool.and_eq_true] at kinded
    simp only [resolveAll, Success.result_bind_eq_ok]
    exact ⟨_, resolve_of_isKinded kinded.1, _, resolveAll_of_allKinded kinded.2, rfl⟩

end

mutual

/-- Resolution checks the kinds of all operands. -/
theorem isKinded_resolve {e : Expr Name negation} {e' : Expr Symbol negation}
    (done : (e.resolve scope).result = .ok e') : e'.isKinded = true := by
  cases e with
  | name n =>
    simp only [resolve, Success.result_bind_eq_ok] at done
    obtain ⟨symbol, -, last⟩ := done
    cases last
    rfl
  | arith op left right =>
    simp only [resolve, Success.result_bind_eq_ok] at done
    obtain ⟨left', first, right', second, last⟩ := done
    obtain ⟨same, rfl⟩ := arithmetic_eq_ok.mp last
    simp [isKinded, same, isKinded_resolve first, isKinded_resolve second]
  | compare op left right =>
    simp only [resolve, Success.result_bind_eq_ok] at done
    obtain ⟨left', first, right', second, last⟩ := done
    cases last
    simp [isKinded, isKinded_resolve first, isKinded_resolve second]
  | call function arguments =>
    simp only [resolve, Success.result_bind_eq_ok] at done
    obtain ⟨symbol, -, arguments', others, last⟩ := done
    cases last
    exact allKinded_resolveAll others
  | neg allowed inner =>
    simp only [resolve, Success.result_bind_eq_ok] at done
    obtain ⟨inner', own, last⟩ := done
    cases last
    rw [isKinded]
    exact isKinded_resolve own
  | _ =>
    cases done
    rfl

theorem allKinded_resolveAll {es : List (Expr Name negation)} {es' : List (Expr Symbol negation)}
    (done : (resolveAll scope es).result = .ok es') : allKinded es' = true := by
  cases es with
  | nil =>
    cases done
    rfl
  | cons e rest =>
    simp only [resolveAll, Success.result_bind_eq_ok] at done
    obtain ⟨e', own, rest', others, last⟩ := done
    cases last
    simp [allKinded, isKinded_resolve own, allKinded_resolveAll others]

end

end Resolution

/-! ### Renaming -/

section Renaming

variable {f : ν → μ}

/-- The kind of an expression depends on the kinds of its names only. -/
theorem kind_rename {e : Expr ν negation} (same : ∀ n ∈ e.names, Named.kind (f n) = Named.kind n) :
    (e.rename f).kind = e.kind := by
  cases e with
  | name n => exact same n (List.mem_singleton_self n)
  | arith op left right => exact kind_rename (e := left) (List.forall_mem_append.mp same).1
  | compare op left right =>
    obtain ⟨inLeft, inRight⟩ := List.forall_mem_append.mp same
    rw [rename, Expr.kind, Expr.kind, kind_rename inLeft, kind_rename inRight]
  | call function arguments => exact same function List.mem_cons_self
  | neg allowed inner => exact kind_rename (e := inner) same
  | _ => rfl

mutual

theorem isKinded_rename {e : Expr ν negation}
    (same : ∀ n ∈ e.names, Named.kind (f n) = Named.kind n) :
    (e.rename f).isKinded = e.isKinded := by
  cases e with
  | arith op left right =>
    obtain ⟨inLeft, inRight⟩ := List.forall_mem_append.mp same
    simp only [rename, isKinded, kind_rename inLeft, kind_rename inRight, isKinded_rename inLeft,
      isKinded_rename inRight]
  | compare op left right =>
    obtain ⟨inLeft, inRight⟩ := List.forall_mem_append.mp same
    simp only [rename, isKinded, isKinded_rename inLeft, isKinded_rename inRight]
  | call function arguments =>
    exact allKinded_renameAll fun n member => same n (List.mem_cons_of_mem _ member)
  | neg allowed inner => exact isKinded_rename (e := inner) same
  | _ => rfl

theorem allKinded_renameAll {es : List (Expr ν negation)}
    (same : ∀ n ∈ allNames es, Named.kind (f n) = Named.kind n) :
    allKinded (renameAll f es) = allKinded es := by
  cases es with
  | nil => rfl
  | cons e rest =>
    obtain ⟨own, others⟩ := List.forall_mem_append.mp same
    simp only [renameAll, allKinded, isKinded_rename own, allKinded_renameAll others]

end

end Renaming

/-! ### Folding -/

section Folding

omit [Named ν] [Named μ]

mutual

/-- What an expression is folded to, if its operands have one kind. -/
def folded : Expr ν negation → Expr ν negation
  | int value => .int value
  | float value => .float value
  | name n => .name n
  | arith op left right =>
    (literal? op left.folded right.folded).getD (.arith op left.folded right.folded)
  | compare op left right => .compare op left.folded right.folded
  | call function arguments => .call function (allFolded arguments)
  | neg allowed inner => foldNeg allowed inner.folded

def allFolded : List (Expr ν negation) → List (Expr ν negation)
  | [] => []
  | e :: rest => e.folded :: allFolded rest

end

theorem allFolded_eq_map (es : List (Expr ν negation)) : allFolded es = es.map folded := by
  induction es with
  | nil => rfl
  | cons e rest ih => rw [allFolded, ih, List.map_cons]

/-- The literals that an operator is computed on, and what it amounts to. -/
inductive Amounts (op : Arithmetic) :
    Expr ν negation → Expr ν negation → Expr ν negation → Prop where
  | int {left right value : Int64}
      (computed : (op.onInt64 left right).filter fitsInt32 = some value) :
      Amounts op (.int left) (.int right) (.int value)
  | float (left right : Binary64) :
      Amounts op (.float left) (.float right) (.float (op.onBinary64 left right))

theorem literal?_inv {op : Arithmetic} {left right e : Expr ν negation}
    (amounts : literal? op left right = some e) : Amounts op left right e := by
  unfold literal? at amounts
  split at amounts
  · obtain ⟨value, computed, rfl⟩ := Option.map_eq_some_iff.mp amounts
    exact .int computed
  · cases amounts
    exact .float _ _
  · cases amounts

/-- Only literals amount to a literal. -/
theorem names_literal? {op : Arithmetic} {left right e : Expr ν negation}
    (amounts : literal? op left right = some e) : e.names = left.names ++ right.names := by
  cases literal?_inv amounts with
  | int computed => rfl
  | float x y => rfl

private theorem names_foldNeg (allowed : negation) (e : Expr ν negation) :
    (e.foldNeg allowed).names = e.names := by
  cases e with
  | int value =>
    rw [foldNeg]
    split <;> rfl
  | _ => rfl

mutual

theorem names_folded (e : Expr ν negation) : e.folded.names = e.names := by
  cases e with
  | arith op left right =>
    rw [folded]
    cases amounts : literal? op left.folded right.folded with
    | none => exact congrArg₂ _ (names_folded left) (names_folded right)
    | some literal =>
      rw [Option.getD_some, names_literal? amounts, names_folded left, names_folded right, names]
  | compare op left right => rw [folded, names, names_folded left, names_folded right, names]
  | call function arguments => rw [folded, names, allNames_allFolded arguments, names]
  | neg allowed inner => exact (names_foldNeg allowed _).trans (names_folded inner)
  | _ => rfl

theorem allNames_allFolded (es : List (Expr ν negation)) : allNames (allFolded es) = allNames es := by
  cases es with
  | nil => rfl
  | cons e rest => rw [allFolded, allNames, names_folded e, allNames_allFolded rest, allNames]

end

variable [Named ν]

/-- What literals amount to has their kind. -/
theorem literal?_kinded {op : Arithmetic} {left right e : Expr ν negation}
    (amounts : literal? op left right = some e) :
    left.kind = right.kind ∧ e.kind = left.kind ∧ e.isKinded = true := by
  cases literal?_inv amounts with
  | int computed => exact ⟨rfl, rfl, rfl⟩
  | float x y => exact ⟨rfl, rfl, rfl⟩

theorem foldNeg_kinded (allowed : negation) (e : Expr ν negation) :
    (e.foldNeg allowed).kind = e.kind ∧ (e.foldNeg allowed).isKinded = e.isKinded := by
  cases e with
  | int value =>
    rw [foldNeg]
    split <;> exact ⟨rfl, rfl⟩
  | _ => exact ⟨rfl, rfl⟩

theorem kind_folded (e : Expr ν negation) : e.folded.kind = e.kind := by
  cases e with
  | arith op left right =>
    rw [folded]
    cases amounts : literal? op left.folded right.folded with
    | none => exact kind_folded left
    | some literal => exact (literal?_kinded amounts).2.1.trans (kind_folded left)
  | compare op left right => rw [folded, kind, kind, kind_folded left, kind_folded right]
  | neg allowed inner => exact (foldNeg_kinded allowed _).1.trans (kind_folded inner)
  | _ => rfl

mutual

theorem isKinded_folded {e : Expr ν negation} (kinded : e.isKinded = true) :
    e.folded.isKinded = true := by
  cases e with
  | arith op left right =>
    simp only [isKinded, Bool.and_eq_true, decide_eq_true_eq] at kinded
    rw [folded]
    cases amounts : literal? op left.folded right.folded with
    | none => simp [isKinded, kind_folded, kinded.1.1, isKinded_folded kinded.1.2,
        isKinded_folded kinded.2]
    | some literal => exact (literal?_kinded amounts).2.2
  | compare op left right =>
    simp only [isKinded, Bool.and_eq_true] at kinded
    simp [folded, isKinded, isKinded_folded kinded.1, isKinded_folded kinded.2]
  | call function arguments => exact allKinded_allFolded kinded
  | neg allowed inner => exact (foldNeg_kinded allowed _).2.trans (isKinded_folded (e := inner) kinded)
  | _ => rfl

theorem allKinded_allFolded {es : List (Expr ν negation)} (kinded : allKinded es = true) :
    allKinded (allFolded es) = true := by
  cases es with
  | nil => rfl
  | cons e rest =>
    simp only [allKinded, Bool.and_eq_true] at kinded
    simp [allFolded, allKinded, isKinded_folded kinded.1, allKinded_allFolded kinded.2]

end

mutual

/-- Folding fails exactly where operands have different kinds. -/
theorem fold_eq_ok_iff {e e' : Expr ν negation} :
    e.fold = .ok e' ↔ e.isKinded = true ∧ e' = e.folded := by
  cases e with
  | arith op left right =>
    simp only [fold, Success.bind_eq_ok, fold_eq_ok_iff, isKinded, Bool.and_eq_true,
      decide_eq_true_eq, folded]
    constructor
    · rintro ⟨_, ⟨inLeft, rfl⟩, _, ⟨inRight, rfl⟩, last⟩
      cases amounts : literal? op left.folded right.folded with
      | none =>
        rw [amounts] at last
        obtain ⟨same, rfl⟩ := arithmetic_eq_ok.mp last
        rw [kind_folded, kind_folded] at same
        exact ⟨⟨⟨same, inLeft⟩, inRight⟩, rfl⟩
      | some literal =>
        rw [amounts] at last
        cases last
        have same := (literal?_kinded amounts).1
        rw [kind_folded, kind_folded] at same
        exact ⟨⟨⟨same, inLeft⟩, inRight⟩, rfl⟩
    · rintro ⟨⟨⟨same, inLeft⟩, inRight⟩, rfl⟩
      refine ⟨_, ⟨inLeft, rfl⟩, _, ⟨inRight, rfl⟩, ?_⟩
      cases amounts : literal? op left.folded right.folded with
      | none => exact arithmetic_eq_ok.mpr ⟨by rw [kind_folded, kind_folded, same], rfl⟩
      | some literal => rfl
  | compare op left right =>
    simp only [fold, Success.bind_eq_ok, Success.pure_eq_ok, fold_eq_ok_iff, and_assoc,
      exists_and_left, exists_eq_left, isKinded, Bool.and_eq_true, folded]
  | call function arguments =>
    simp only [fold, Success.bind_eq_ok, Success.pure_eq_ok, foldAll_eq_ok_iff, and_assoc,
      exists_and_left, exists_eq_left, isKinded, folded]
  | neg allowed inner =>
    simp only [fold, Success.bind_eq_ok, Success.pure_eq_ok, fold_eq_ok_iff, and_assoc,
      exists_and_left, exists_eq_left, isKinded, folded]
  | _ => simp [fold, isKinded, folded, eq_comm]

theorem foldAll_eq_ok_iff {es es' : List (Expr ν negation)} :
    foldAll es = .ok es' ↔ allKinded es = true ∧ es' = allFolded es := by
  cases es with
  | nil => simp [foldAll, allKinded, allFolded, eq_comm]
  | cons e rest =>
    simp only [foldAll, Success.bind_eq_ok, Success.pure_eq_ok, fold_eq_ok_iff, foldAll_eq_ok_iff,
      and_assoc, exists_and_left, exists_eq_left, allKinded, Bool.and_eq_true, allFolded]

end

end Folding

/-! ### Negations -/

mutual

/-- What an expression is without negations, if its operands have one kind. -/
def subtracted : Expr ν negation → Expr ν False
  | int value => .int value
  | float value => .float value
  | name n => .name n
  | arith op left right => .arith op left.subtracted right.subtracted
  | compare op left right => .compare op left.subtracted right.subtracted
  | call function arguments => .call function (allSubtracted arguments)
  | neg _ inner => .arith .sub (.zero inner.kind) inner.subtracted

def allSubtracted : List (Expr ν negation) → List (Expr ν False)
  | [] => []
  | e :: rest => e.subtracted :: allSubtracted rest

end

theorem allSubtracted_eq_map (es : List (Expr ν negation)) :
    allSubtracted es = es.map subtracted := by
  induction es with
  | nil => rfl
  | cons e rest ih => rw [allSubtracted, ih, List.map_cons]

@[simp]
theorem kind_subtracted (e : Expr ν negation) : e.subtracted.kind = e.kind := by
  cases e with
  | arith op left right => exact kind_subtracted left
  | compare op left right =>
    rw [subtracted, kind, kind, kind_subtracted left, kind_subtracted right]
  | neg allowed inner => exact kind_zero _
  | _ => rfl

theorem map_kind_allSubtracted (es : List (Expr ν negation)) :
    (allSubtracted es).map kind = es.map kind := by
  rw [allSubtracted_eq_map, List.map_map]
  exact List.map_congr_left fun e _ => kind_subtracted e

mutual

theorem isKinded_subtracted (e : Expr ν negation) : e.subtracted.isKinded = e.isKinded := by
  cases e with
  | arith op left right =>
    simp only [subtracted, isKinded, kind_subtracted, isKinded_subtracted left,
      isKinded_subtracted right]
  | compare op left right =>
    simp only [subtracted, isKinded, isKinded_subtracted left, isKinded_subtracted right]
  | call function arguments => exact allKinded_allSubtracted arguments
  | neg allowed inner =>
    simp only [subtracted, isKinded, kind_zero, kind_subtracted, isKinded_zero, decide_true,
      Bool.true_and, isKinded_subtracted inner]
  | _ => rfl

theorem allKinded_allSubtracted (es : List (Expr ν negation)) :
    allKinded (allSubtracted es) = allKinded es := by
  cases es with
  | nil => rfl
  | cons e rest =>
    simp only [allSubtracted, allKinded, isKinded_subtracted e, allKinded_allSubtracted rest]

end

mutual

/-- Writing negations as subtractions fails exactly where operands have different kinds. -/
theorem subtract_eq_ok_iff {e : Expr Symbol negation} {e' : Expr Symbol False} :
    e.subtract = .ok e' ↔ e.isKinded = true ∧ e' = e.subtracted := by
  cases e with
  | arith op left right =>
    simp only [subtract, Success.bind_eq_ok, subtract_eq_ok_iff, arithmetic_eq_ok, and_assoc,
      exists_and_left, exists_eq_left, kind_subtracted, isKinded, Bool.and_eq_true,
      decide_eq_true_eq, subtracted]
    constructor
    · rintro ⟨inLeft, inRight, same, rfl⟩
      exact ⟨same, inLeft, inRight, rfl⟩
    · rintro ⟨same, inLeft, inRight, rfl⟩
      exact ⟨inLeft, inRight, same, rfl⟩
  | compare op left right =>
    simp only [subtract, Success.bind_eq_ok, Success.pure_eq_ok, subtract_eq_ok_iff, and_assoc,
      exists_and_left, exists_eq_left, isKinded, Bool.and_eq_true, subtracted]
  | call function arguments =>
    simp only [subtract, Success.bind_eq_ok, Success.pure_eq_ok, subtractAll_eq_ok_iff, and_assoc,
      exists_and_left, exists_eq_left, isKinded, subtracted]
  | neg allowed inner =>
    -- The zero gets the kind of the operand as it has become, which is the one that it had.
    simp only [subtract, Success.bind_eq_ok, subtract_eq_ok_iff, arithmetic_eq_ok, and_assoc,
      exists_and_left, exists_eq_left, kind_zero, kind_subtracted, isKinded, true_and, subtracted]
  | _ => simp [subtract, isKinded, subtracted, eq_comm]

theorem subtractAll_eq_ok_iff {es : List (Expr Symbol negation)} {es' : List (Expr Symbol False)} :
    subtractAll es = .ok es' ↔ allKinded es = true ∧ es' = allSubtracted es := by
  cases es with
  | nil => simp [subtractAll, allKinded, allSubtracted, eq_comm]
  | cons e rest =>
    simp only [subtractAll, Success.bind_eq_ok, Success.pure_eq_ok, subtract_eq_ok_iff,
      subtractAll_eq_ok_iff, and_assoc, exists_and_left, exists_eq_left, allKinded,
      Bool.and_eq_true, allSubtracted]

end

/-- Negations are written as subtractions wherever operands have one kind, and the kind of the whole
stays. -/
theorem subtract_succeeds {e : Expr Symbol negation} (kinded : e.isKinded = true) :
    ∃ e', e.subtract = .ok e' ∧ e'.kind = e.kind :=
  ⟨e.subtracted, subtract_eq_ok_iff.mpr ⟨kinded, rfl⟩, kind_subtracted e⟩

end Wabbit.Ast.Expr

namespace Wabbit.Ast.Condition

variable {ν : Type} {negation negation' : Prop}

/-- The condition with what has become of its operands. -/
def replace (f : Expr ν negation → Expr ν negation') (condition : Condition ν negation) :
    Condition ν negation' :=
  ⟨condition.op, f condition.left, f condition.right⟩

theorem subtract_eq_ok_iff {condition : Condition Symbol negation}
    {condition' : Condition Symbol False} :
    condition.subtract = .ok condition' ↔
      condition.toExpr.isKinded = true ∧ condition' = condition.replace Expr.subtracted := by
  simp only [subtract, Success.bind_eq_ok, Success.pure_eq_ok, Expr.subtract_eq_ok_iff, and_assoc,
    exists_and_left, exists_eq_left, toExpr, Expr.isKinded, Bool.and_eq_true, replace]

theorem toExpr_subtract {condition : Condition Symbol negation} {condition' : Condition Symbol False}
    (done : condition.subtract = .ok condition') :
    condition'.toExpr = condition.toExpr.subtracted := by
  obtain ⟨-, rfl⟩ := subtract_eq_ok_iff.mp done
  rfl

end Wabbit.Ast.Condition
