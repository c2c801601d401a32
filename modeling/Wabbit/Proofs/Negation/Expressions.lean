import Wabbit.Proofs.Meaning.Expressions
import Wabbit.Proofs.Numbers.Signs

/-!
Expressions without negations. They differ from the expressions that they are made from in nothing but
the differences from zero that stand for negations. An integer is negated modulo `2 ^ 32` by that. A
float that is negated has the other sign, and its difference from zero is the same except for zero, so
the meaning stays exactly where no negated float can be zero.
-/

namespace Wabbit

open Ast
open Tac (Address)

/-- The rules with differences from zero for negations. -/
def Rules.subtracting (rules : Rules) : Rules where
  arithmetic := rules.arithmetic
  negation kind := rules.arithmetic .sub kind (World.zero kind)

/-- A zero is used as itself. -/
theorem World.convert_zero (w : World) (kind : Kind) :
    w.convert (.number ⟨kind, World.zero kind⟩) kind = World.zero kind := by
  cases kind <;> rfl

private theorem Rules.negate_subtracting (rules : Rules) (w : World) (kind : Kind) (value : Entry) :
    rules.subtracting.negate w kind value =
      rules.apply w .sub kind (.number ⟨kind, World.zero kind⟩) value := by
  rw [negate, apply, World.convert_zero]
  rfl

/-- The same comes out of a negation by two rules exactly if they give the same for the value. -/
theorem Rules.negate_eq_iff {rules rules' : Rules} {w : World} {kind : Kind} {value : Entry} :
    rules.negate w kind value = rules'.negate w kind value ↔
      rules.negation kind (w.convert value kind) = rules'.negation kind (w.convert value kind) := by
  have numbers : Function.Injective fun x : kind.Carrier => Entry.number ⟨kind, x⟩ := by
    rintro x y ⟨⟩
    rfl
  exact (Option.map_injective numbers).eq_iff

/-- The negation of an integer is its difference from zero, also for the least one. -/
theorem Rules.negation_subtracting_integer (value : Int32) :
    source.subtracting.negation .integer value = source.negation .integer value := by
  have opposite : Int32.ofInt ((0 : Int32).toInt - value.toInt) = -value := by
    rw [Int32.toInt_zero, Int.zero_sub, Int32.ofInt_neg, Int32.ofInt_toInt]
  exact congrArg some opposite

theorem Rules.negation_subtracting_float_iff {x : Binary64} :
    source.subtracting.negation .float x = source.negation .float x ↔
      x ≠ .zero ∧ (x.isNaN = true → x = Binary64.nan.neg) :=
  Option.some_inj.trans Binary64.sub_zero_eq_neg_iff

namespace Ast.Expr

variable {ν : Type} {negation : Prop} [Named ν]

/-- A change of expressions that makes every negation a difference from the zero of its kind. It goes
into all operands and leaves everything else as it is, the kinds of the expressions among it. -/
structure ReplacesNegations (f : Expr ν negation → Expr ν False) : Prop where
  kind : ∀ e, (f e).kind = e.kind
  isKinded : ∀ e, (f e).isKinded = e.isKinded
  int : ∀ value, f (.int value) = .int value
  float : ∀ value, f (.float value) = .float value
  name : ∀ n, f (.name n) = .name n
  arith : ∀ op left right, f (.arith op left right) = .arith op (f left) (f right)
  compare : ∀ op left right, f (.compare op left right) = .compare op (f left) (f right)
  call : ∀ function arguments, f (.call function arguments) = .call function (arguments.map f)
  neg : ∀ allowed inner, f (.neg allowed inner) = .arith .sub (.zero inner.kind) (f inner)

theorem subtracted_replacesNegations :
    ReplacesNegations (subtracted : Expr ν negation → Expr ν False) where
  kind := kind_subtracted
  isKinded := isKinded_subtracted
  int _ := rfl
  float _ := rfl
  name _ := rfl
  arith _ _ _ := rfl
  compare _ _ _ := rfl
  call _ arguments := congrArg _ (allSubtracted_eq_map arguments)
  neg _ _ := rfl

/-! ### Meaning -/

/-- Whether nothing but integers is negated in an expression. -/
def NegatesIntegers (e : Expr ν negation) : Prop :=
  ∀ allowed inner, .neg allowed inner ∈ e.parts → inner.kind = .integer

section Meaning

variable (w : World) (rules : Rules) (place : ν → Address)

/-- Whether an expression has a value from some state on. -/
def CanBe (e : Expr ν negation) (value : Entry) : Prop :=
  ∃ s t, World.outcome (e.evaluate w rules place) s = (some value, t)

/-- Whether a negation at the root of an expression is a difference from zero for all that it can be
used on. -/
def NegatesBySubtracting : Expr ν negation → Prop
  | neg _ inner => ∀ value, inner.CanBe w rules place value →
      rules.subtracting.negate w inner.kind value = rules.negate w inner.kind value
  | _ => True

/-- Whether a negation at the root of an expression is used on no float that is zero, nor on a NaN
unless it has the other sign than those that operators give. -/
def NegatesNoZero : Expr ν negation → Prop
  | neg _ inner => inner.kind = .float → ∀ value, inner.CanBe w .source place value →
      let x : Binary64 := w.convert value .float
      x ≠ .zero ∧ (x.isNaN = true → x = Binary64.nan.neg)
  | _ => True

variable {w rules place}

theorem evaluate_zero (kind : Kind) :
    (zero kind : Expr ν negation).evaluate w rules place =
      pure (.number ⟨kind, World.zero kind⟩) := by
  cases kind <;> rfl

mutual

/-- An expression whose negations are written as subtractions means what it means when negations are
differences from zero. -/
theorem evaluate_subtracted (e : Expr ν negation) :
    e.subtracted.evaluate w rules place = e.evaluate w rules.subtracting place := by
  cases e with
  | arith op left right =>
    simp only [subtracted, evaluate, kind_subtracted, evaluate_subtracted left,
      evaluate_subtracted right]
    rfl
  | compare op left right =>
    simp only [subtracted, evaluate, kind_subtracted, evaluate_subtracted left,
      evaluate_subtracted right]
  | call function arguments =>
    simp only [subtracted, evaluate, evaluateAll_allSubtracted arguments]
  | neg allowed inner =>
    simp only [subtracted, evaluate, evaluate_zero, kind_zero, pure_bind, evaluate_subtracted inner,
      Rules.negate_subtracting]
  | _ => rfl

theorem evaluateAll_allSubtracted (es : List (Expr ν negation)) :
    evaluateAll w rules place (allSubtracted es) = evaluateAll w rules.subtracting place es := by
  cases es with
  | nil => rfl
  | cons e rest =>
    simp only [allSubtracted, evaluateAll, evaluate_subtracted e, evaluateAll_allSubtracted rest]

end

mutual

/-- The meaning stays where all negations are differences from zero. -/
theorem evaluate_subtracting {e : Expr ν negation}
    (agree : ∀ d ∈ e.parts, d.NegatesBySubtracting w rules place) :
    e.evaluate w rules.subtracting place = e.evaluate w rules place := by
  cases e with
  | arith op left right =>
    simp only [parts, List.forall_mem_cons, List.forall_mem_append] at agree
    simp only [evaluate, evaluate_subtracting agree.2.1, evaluate_subtracting agree.2.2]
    rfl
  | compare op left right =>
    simp only [parts, List.forall_mem_cons, List.forall_mem_append] at agree
    simp only [evaluate, evaluate_subtracting agree.2.1, evaluate_subtracting agree.2.2]
  | call function arguments =>
    simp only [parts, List.forall_mem_cons] at agree
    simp only [evaluate, evaluateAll_subtracting agree.2]
  | neg allowed inner =>
    simp only [parts, List.forall_mem_cons] at agree
    obtain ⟨root, inside⟩ := agree
    rw [evaluate, evaluate, evaluate_subtracting inside]
    apply World.bind_congr_of_outcome
    intro s value t reached
    rw [root value ⟨s, t, reached⟩]
  | _ => rfl

theorem evaluateAll_subtracting {es : List (Expr ν negation)}
    (agree : ∀ d ∈ allParts es, d.NegatesBySubtracting w rules place) :
    evaluateAll w rules.subtracting place es = evaluateAll w rules place es := by
  cases es with
  | nil => rfl
  | cons e rest =>
    simp only [allParts, List.forall_mem_append] at agree
    simp only [evaluateAll, evaluate_subtracting agree.1, evaluateAll_subtracting agree.2]

end

/-- If the meanings of a negation and of its operand stay, it is a difference from zero for all that
it can be used on. -/
theorem negatesBySubtracting_of_evaluate {allowed : negation} {inner : Expr ν negation}
    (keeps : (neg allowed inner).evaluate w rules.subtracting place =
      (neg allowed inner).evaluate w rules place)
    (own : inner.evaluate w rules.subtracting place = inner.evaluate w rules place) :
    (neg allowed inner).NegatesBySubtracting w rules place := by
  rintro value ⟨s, t, reached⟩
  rw [evaluate, evaluate, own] at keeps
  have same := congrArg (World.outcome · s) keeps
  rw [World.outcome_bind, World.outcome_bind, reached] at same
  exact congrArg Prod.fst same

/-- The meaning of an expression and of all its parts stays exactly if all negations are differences
from zero. -/
theorem evaluate_subtracting_iff {e : Expr ν negation} :
    (∀ d ∈ e.parts, d.evaluate w rules.subtracting place = d.evaluate w rules place) ↔
      ∀ d ∈ e.parts, d.NegatesBySubtracting w rules place := by
  constructor
  · intro keeps d inside
    cases d with
    | neg allowed inner =>
      have deeper : inner ∈ (neg allowed inner).parts := by simp [parts, self_mem_parts]
      exact negatesBySubtracting_of_evaluate (keeps _ inside) (keeps _ (parts_trans deeper inside))
    | _ => trivial
  · intro agree d inside
    exact evaluate_subtracting fun c deeper => agree c (parts_trans deeper inside)

/-- By the rules of the language the negation of an integer is always a difference from zero, that of
a float unless it is zero. -/
theorem negatesBySubtracting_source_iff {e : Expr ν negation} :
    e.NegatesBySubtracting w .source place ↔ e.NegatesNoZero w place := by
  cases e with
  | neg allowed inner =>
    simp only [NegatesBySubtracting, NegatesNoZero, Rules.negate_eq_iff]
    generalize inner.kind = kind
    cases kind with
    | integer => exact iff_of_true (fun _ _ => Rules.negation_subtracting_integer _) nofun
    | float =>
      constructor
      · intro agree _ value reached
        exact Rules.negation_subtracting_float_iff.mp (agree value reached)
      · intro other value reached
        exact Rules.negation_subtracting_float_iff.mpr (other rfl value reached)
  | _ => rfl

/-- Written as subtractions, negations keep the meaning of an expression and of all its parts exactly
if no negated float can be zero. -/
theorem evaluate_subtracted_source_iff {e : Expr ν negation} :
    (∀ d ∈ e.parts, d.subtracted.evaluate w .source place = d.evaluate w .source place) ↔
      ∀ d ∈ e.parts, d.NegatesNoZero w place := by
  simp only [evaluate_subtracted, ← negatesBySubtracting_source_iff]
  exact evaluate_subtracting_iff

theorem negatesNoZero_of_integers {e : Expr ν negation} (integers : e.NegatesIntegers) :
    ∀ d ∈ e.parts, d.NegatesNoZero w place := by
  intro d inside
  cases d with
  | neg allowed inner =>
    intro float
    rw [integers allowed inner inside] at float
    cases float
  | _ => trivial

end Meaning

end Ast.Expr

end Wabbit
