import Wabbit.Proofs.Meaning.Expressions
import Wabbit.Proofs.Meaning.Integers

/-!
What folded expressions look like. Every operator that folding leaves on literals has a reason to
stay, and expressions of which this is true are left alone; so folding twice is folding once.
-/

namespace Wabbit.Ast.Expr

variable {ν : Type} {negation : Prop}

/-- Whether an expression is a number that is written down. -/
def isLiteral : Expr ν negation → Bool
  | int _ | float _ => true
  | _ => false

theorem isLiteral_literal? {op : Arithmetic} {left right e : Expr ν negation}
    (amounts : literal? op left right = some e) : e.isLiteral = true := by
  cases literal?_inv amounts with
  | int computed => rfl
  | float x y => rfl

theorem folded_neg_cases (allowed : negation) (inner : Expr ν negation) :
    (neg allowed inner).folded = .neg allowed inner.folded ∨
      (neg allowed inner).folded.isLiteral = true := by
  rw [folded]
  cases inner.folded with
  | int value =>
    rw [foldNeg]
    split
    · exact .inr rfl
    · exact .inl rfl
  | float value => exact .inr rfl
  | _ => exact .inl rfl

/-! ### Normal forms -/

/-- Whether an operator at the root of an expression stands there for a reason: it is not applied to
literals, or the exact result on integers has more than 32 bits, or the divisor is zero. -/
def IsNormal : Expr ν negation → Prop
  | arith op (int left) (int right) =>
    op = .div ∧ right = 0 ∨
      ¬ (-2 ^ 31 ≤ op.onInt left.toInt right.toInt ∧ op.onInt left.toInt right.toInt < 2 ^ 31)
  | arith _ (float _) (float _) => False
  | neg _ (int value) => ¬ (-2 ^ 31 ≤ -value.toInt ∧ -value.toInt < 2 ^ 31)
  | neg _ (float _) => False
  | _ => True

/-- Operators that amount to no literal are those that have a reason to stay. -/
theorem literal?_eq_none_iff {op : Arithmetic} {left right : Expr ν negation} :
    literal? op left right = none ↔ (arith op left right).IsNormal := by
  unfold literal?
  split
  · exact Option.map_eq_none_iff.trans Arithmetic.filter_onInt64_eq_none_iff
  · simp [IsNormal]
  · rename_i noInts noFloats
    refine iff_of_true rfl ?_
    unfold IsNormal
    split
    · rename_i same
      cases same
      exact (noInts _ _ rfl rfl).elim
    · rename_i same
      cases same
      exact noFloats _ _ rfl rfl
    all_goals trivial

theorem foldNeg_eq_neg_iff {allowed : negation} {inner : Expr ν negation} :
    foldNeg allowed inner = .neg allowed inner ↔ (neg allowed inner).IsNormal := by
  cases inner with
  | int value =>
    rw [foldNeg, IsNormal, ← fitsInt32_neg_iff]
    split <;> simp [*]
  | float value => simp [foldNeg, IsNormal]
  | _ => simp [foldNeg, IsNormal]

/-- A literal is all there is of it. -/
theorem isNormal_of_isLiteral {e : Expr ν negation} (literal : e.isLiteral = true) :
    ∀ d ∈ e.parts, d.IsNormal := by
  cases e with
  | int value | float value => exact List.forall_mem_singleton.mpr trivial
  | _ => cases literal

mutual

/-- Folding leaves no operator without a reason. -/
theorem folded_isNormal (e : Expr ν negation) : ∀ d ∈ e.folded.parts, d.IsNormal := by
  cases e with
  | arith op left right =>
    rw [folded]
    cases amounts : literal? op left.folded right.folded with
    | none =>
      rw [Option.getD_none, parts, List.forall_mem_cons, List.forall_mem_append]
      exact ⟨literal?_eq_none_iff.mp amounts, left.folded_isNormal, right.folded_isNormal⟩
    | some literal => exact isNormal_of_isLiteral (isLiteral_literal? amounts)
  | compare op left right =>
    rw [folded, parts, List.forall_mem_cons, List.forall_mem_append]
    exact ⟨trivial, left.folded_isNormal, right.folded_isNormal⟩
  | call function arguments =>
    rw [folded, parts, List.forall_mem_cons]
    exact ⟨trivial, allFolded_isNormal arguments⟩
  | neg allowed inner =>
    rcases folded_neg_cases allowed inner with kept | literal
    · rw [kept, parts, List.forall_mem_cons]
      exact ⟨foldNeg_eq_neg_iff.mp kept, inner.folded_isNormal⟩
    · exact isNormal_of_isLiteral literal
  | _ => exact List.forall_mem_singleton.mpr trivial

theorem allFolded_isNormal (es : List (Expr ν negation)) :
    ∀ d ∈ allParts (allFolded es), d.IsNormal := by
  cases es with
  | nil => exact nofun
  | cons e rest =>
    rw [allFolded, allParts, List.forall_mem_append]
    exact ⟨e.folded_isNormal, allFolded_isNormal rest⟩

end

mutual

/-- An expression in which every operator has a reason to stay is left alone. -/
theorem folded_of_isNormal {e : Expr ν negation} (normal : ∀ d ∈ e.parts, d.IsNormal) :
    e.folded = e := by
  cases e with
  | arith op left right =>
    rw [parts, List.forall_mem_cons, List.forall_mem_append] at normal
    obtain ⟨root, inLeft, inRight⟩ := normal
    rw [folded, folded_of_isNormal inLeft, folded_of_isNormal inRight, literal?_eq_none_iff.mpr root,
      Option.getD_none]
  | compare op left right =>
    rw [parts, List.forall_mem_cons, List.forall_mem_append] at normal
    rw [folded, folded_of_isNormal normal.2.1, folded_of_isNormal normal.2.2]
  | call function arguments =>
    rw [parts, List.forall_mem_cons] at normal
    rw [folded, allFolded_of_isNormal normal.2]
  | neg allowed inner =>
    rw [parts, List.forall_mem_cons] at normal
    rw [folded, folded_of_isNormal normal.2, foldNeg_eq_neg_iff.mpr normal.1]
  | _ => rfl

theorem allFolded_of_isNormal {es : List (Expr ν negation)}
    (normal : ∀ d ∈ allParts es, d.IsNormal) : allFolded es = es := by
  cases es with
  | nil => rfl
  | cons e rest =>
    rw [allParts, List.forall_mem_append] at normal
    rw [allFolded, folded_of_isNormal normal.1, allFolded_of_isNormal normal.2]

end

theorem folded_folded (e : Expr ν negation) : e.folded.folded = e.folded :=
  folded_of_isNormal e.folded_isNormal

/-! ### Contractions -/

/-- A change of expressions that keeps their kinds and names. It goes into all operands, and puts
nothing but literals in place of operators. -/
structure IsContraction [Named ν] (f : Expr ν negation → Expr ν negation) : Prop where
  kind : ∀ e, (f e).kind = e.kind
  names : ∀ e, (f e).names = e.names
  int : ∀ value, f (.int value) = .int value
  float : ∀ value, f (.float value) = .float value
  name : ∀ n, f (.name n) = .name n
  arith : ∀ op left right, f (.arith op left right) = .arith op (f left) (f right) ∨
    (f (.arith op left right)).isLiteral = true
  compare : ∀ op left right, f (.compare op left right) = .compare op (f left) (f right)
  call : ∀ function arguments, f (.call function arguments) = .call function (arguments.map f)
  neg : ∀ allowed inner, f (.neg allowed inner) = .neg allowed (f inner) ∨
    (f (.neg allowed inner)).isLiteral = true

theorem folded_isContraction [Named ν] :
    IsContraction (folded : Expr ν negation → Expr ν negation) where
  kind := kind_folded
  names := names_folded
  int _ := rfl
  float _ := rfl
  name _ := rfl
  arith op left right := by
    rw [folded]
    cases amounts : literal? op left.folded right.folded with
    | none => exact .inl rfl
    | some literal => exact .inr (isLiteral_literal? amounts)
  compare _ _ _ := rfl
  call function arguments := congrArg _ (allFolded_eq_map arguments)
  neg := folded_neg_cases

end Wabbit.Ast.Expr
