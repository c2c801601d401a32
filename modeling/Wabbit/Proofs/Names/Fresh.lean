import Mathlib.Data.List.Nodup
import Mathlib.Data.List.Perm.Subperm
import Wabbit.Ast.Scope

/-!
Names for the variables of a function. A variable never gets a name that is taken or that a block may
bear, and its name starts as it does in the source text.
-/

namespace Wabbit

theorem toString_injective {m n : Nat} (same : toString m = toString n) : m = n := by
  have digits := congrArg String.toList same
  simp only [Nat.toString_eq_repr, Nat.toList_repr] at digits
  rw [← @Nat.ofDigitChars_ten_toDigits m, digits, Nat.ofDigitChars_ten_toDigits]

/-- Whether a name starts with anything but a dot. -/
def isUndotted (name : String) : Bool := name.toList.head?.any (· ≠ '.')

theorem isUndotted_append {front : String} (undotted : isUndotted front = true) (back : String) :
    isUndotted (front ++ back) = true := by
  unfold isUndotted at undotted ⊢
  rw [String.toList_append]
  cases parts : front.toList with
  | nil => simp [parts] at undotted
  | cons c rest => simpa [parts] using undotted

namespace Ast

/-- A block never bears a name with a dot in it. -/
theorem not_isBlockName_of_dot {name : String} (dotted : '.' ∈ name.toList) :
    isBlockName name = false := by
  unfold isBlockName
  have other : name ≠ Label.entryName := by
    rintro rfl
    revert dotted
    decide
  simp only [Bool.or_eq_false_iff, beq_eq_false_iff_ne, ne_eq, other, not_false_eq_true, true_and]
  split
  · rename_i digits parts
    have inside : '.' ∈ digits := by
      rw [parts] at dotted
      simpa using dotted
    have broken : digits.all Char.isDigit = false := List.all_eq_false.mpr ⟨'.', inside, by decide⟩
    simp [broken]
  · rfl

theorem isBlockName_numbered (n : Nat) : isBlockName ("L" ++ toString n) = true := by
  have digits : (Nat.toDigits 10 n).all Char.isDigit = true := by
    rw [List.all_eq_true]
    intro c member
    exact Nat.isDigit_of_mem_toDigits (by decide) (by decide) member
  simp [isBlockName, digits, Nat.toDigits_ne_nil]

/-- The names that blocks may bear are `entry`, and `L` with digits behind it. -/
theorem isBlockName_iff {name : String} : isBlockName name = true ↔
    name = Label.entryName ∨ ∃ digits, digits ≠ [] ∧ (∀ c ∈ digits, c.isDigit = true) ∧
      name.toList = 'L' :: digits := by
  rw [isBlockName, Bool.or_eq_true, beq_iff_eq]
  refine or_congr Iff.rfl ?_
  split
  · rename_i digits parts
    simp [parts]
  · rename_i other
    simp only [Bool.false_eq_true, false_iff]
    rintro ⟨digits, -, -, parts⟩
    exact other digits parts

/-- Whether a name may be given to a variable: it is not taken, and no block may bear it. -/
structure IsFree (taken : List String) (slot : String) : Prop where
  unused : slot ∉ taken
  noEntry : slot ≠ Label.entryName
  noLabel : ∀ digits, slot.toList = 'L' :: digits → digits ≠ [] → ∃ c ∈ digits, c.isDigit = false

theorem isFree_iff {taken : List String} {slot : String} :
    IsFree taken slot ↔ slot ∉ taken ∧ ¬ isBlockName slot = true := by
  rw [isBlockName_iff, not_or]
  constructor
  · intro free
    refine ⟨free.unused, free.noEntry, ?_⟩
    rintro ⟨digits, some, all, parts⟩
    obtain ⟨c, member, other⟩ := free.noLabel digits parts some
    simp [all c member] at other
  · rintro ⟨unused, noEntry, noLabel⟩
    refine ⟨unused, noEntry, fun digits parts some => ?_⟩
    by_contra! all
    exact noLabel ⟨digits, some, fun c member => by simpa using all c member, parts⟩

instance (taken : List String) : DecidablePred (IsFree taken) := fun _ =>
  decidable_of_iff _ isFree_iff.symm

/-- The name with a number behind a dot. -/
def numbered (name : String) (n : Nat) : String := name ++ "." ++ toString n

private theorem numbered_injective (name : String) : Function.Injective (numbered name) := by
  intro j k same
  have parts := congrArg String.toList same
  simp only [numbered, String.toList_append] at parts
  exact toString_injective (String.toList_inj.mp (List.append_cancel_left parts))

theorem isFree_numbered_iff {taken : List String} {name : String} {n : Nat} :
    IsFree taken (numbered name n) ↔ numbered name n ∉ taken := by
  have unblocked : isBlockName (numbered name n) = false :=
    not_isBlockName_of_dot (by simp [numbered])
  simp [isFree_iff, unblocked]

/-- There are more names with a number than names that are taken, so one of them is free. -/
theorem exists_free (taken : List String) (name : String) :
    ∃ k ≤ taken.length, IsFree taken (numbered name (k + 1)) := by
  by_contra! all
  have inside : (List.range (taken.length + 1)).map (fun k => numbered name (k + 1)) ⊆ taken := by
    intro slot member
    obtain ⟨k, small, rfl⟩ := List.mem_map.mp member
    have occupied := all k (Nat.lt_succ_iff.mp (List.mem_range.mp small))
    rwa [isFree_numbered_iff, not_not] at occupied
  have distinct : ((List.range (taken.length + 1)).map fun k => numbered name (k + 1)).Nodup :=
    List.nodup_range.map fun j k same => Nat.succ.inj (numbered_injective name same)
  have short := (List.subperm_of_subset distinct inside).length_le
  simp only [List.length_map, List.length_range] at short
  omega

private theorem freshSlot_eq (taken : List String) (name : String) :
    freshSlot taken name = if IsFree taken name then name else
      (((List.range (taken.length + 1)).find? fun k => IsFree taken (numbered name (k + 1))).map
        fun k => numbered name (k + 1)).getD name := by
  simp only [freshSlot, isFree_iff, List.find?_map, decide_eq_true_eq]
  rfl

/-- The name of a variable is the one in the source text if that is free, or else that one with the
least number with which it is. -/
theorem freshSlot_cases (taken : List String) (name : String) :
    IsFree taken name ∧ freshSlot taken name = name ∨
      ¬ IsFree taken name ∧ ∃ k, 1 ≤ k ∧ IsFree taken (numbered name k) ∧
        (∀ j, 1 ≤ j → j < k → ¬ IsFree taken (numbered name j)) ∧
        freshSlot taken name = numbered name k := by
  rw [freshSlot_eq]
  by_cases free : IsFree taken name
  · exact .inl ⟨free, if_pos free⟩
  · refine .inr ⟨free, ?_⟩
    obtain ⟨k, small, freeAt⟩ := exists_free taken name
    have inside := List.mem_range.mpr (Nat.lt_succ_of_le small)
    have some := List.find?_isSome (p := fun k => IsFree taken (numbered name (k + 1))).mpr
      ⟨k, inside, decide_eq_true freeAt⟩
    obtain ⟨least, found⟩ := Option.isSome_iff_exists.mp some
    obtain ⟨freeAt, -, before⟩ := List.find?_range_eq_some.mp found
    refine ⟨least + 1, Nat.succ_pos least, of_decide_eq_true freeAt, ?_, ?_⟩
    · rintro (_ | j) positive smaller
      · cases positive
      · simpa using before j (Nat.lt_of_succ_lt_succ smaller)
    · rw [if_neg free, found, Option.map_some, Option.getD_some]

theorem freshSlot_isFree (taken : List String) (name : String) :
    IsFree taken (freshSlot taken name) := by
  rcases freshSlot_cases taken name with ⟨free, same⟩ | ⟨-, k, -, free, -, same⟩
  · rw [same]
    exact free
  · rw [same]
    exact free

theorem freshSlot_not_mem (taken : List String) (name : String) : freshSlot taken name ∉ taken :=
  (freshSlot_isFree taken name).unused

theorem freshSlot_not_isBlockName (taken : List String) (name : String) :
    isBlockName (freshSlot taken name) = false := by
  simpa using (isFree_iff.mp (freshSlot_isFree taken name)).2

theorem freshSlot_isUndotted (taken : List String) {name : String}
    (undotted : isUndotted name = true) : isUndotted (freshSlot taken name) = true := by
  rcases freshSlot_cases taken name with ⟨-, same⟩ | ⟨-, k, -, -, -, same⟩
  · rw [same]
    exact undotted
  · rw [same]
    exact isUndotted_append (isUndotted_append undotted ".") _

end Ast

end Wabbit
