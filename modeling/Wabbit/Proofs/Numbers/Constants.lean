import Wabbit.Proofs.Numbers.Rounding
import Wabbit.Tac.Assembly

/-!
Floating point constants in assembly. A constant is read as it is in LLVM: behind `0x` stand the bits
of the number, and a decimal constant has to be exactly a number of 64 bits. Main statement: the
constant of a number is read as that number, whatever its bits are, so different numbers have
different constants.
-/

namespace Wabbit.Binary64

/-! ### Reading constants -/

/-- The value of a digit in base 16. -/
def hexDigit? (c : Char) : Option Nat :=
  if c.isDigit then some (c.toNat - '0'.toNat)
  else if 'A' ≤ c ∧ c ≤ 'F' then some (10 + c.toNat - 'A'.toNat)
  else if 'a' ≤ c ∧ c ≤ 'f' then some (10 + c.toNat - 'a'.toNat)
  else none

/-- The number that is written with digits in base 16, behind those that stand for `front`. -/
def natOfHex? (front : Nat) (digits : List Char) : Option Nat :=
  digits.foldlM (fun n c => (hexDigit? c).map (16 * n + ·)) front

/-- The word whose bits are written with 16 digits in base 16. -/
def ofHex? (digits : List Char) : Option Binary64 :=
  if digits.length = 16 then (natOfHex? 0 digits).map fun n => ⟨.ofNat n⟩ else none

/-- The word that stands for exactly `num / den` with the given sign. -/
def ofFraction? (negative : Bool) (num den : Nat) : Option Binary64 :=
  let x := ofRatio negative num den
  if x.isFinite ∧ x.units * den = num * one then some x else none

/-- The word that stands for exactly a decimal number: digits, a point and perhaps more digits. -/
def ofDecimal? (negative : Bool) (text : List Char) : Option Binary64 :=
  let front := text.takeWhile Char.isDigit
  match text.dropWhile Char.isDigit with
  | '.' :: back =>
    if front ≠ [] ∧ back.all Char.isDigit then
      ofFraction? negative (Nat.ofDigitChars 10 (front ++ back) 0) (10 ^ back.length)
    else none
  | _ => none

/-- The number that a constant stands for. -/
def ofConstant? (text : String) : Option Binary64 :=
  match text.toList with
  | '0' :: 'x' :: digits => ofHex? digits
  | '-' :: rest => ofDecimal? true rest
  | '+' :: rest => ofDecimal? false rest
  | rest => ofDecimal? false rest

/-- A fraction is read as the one finite number that it is, and as none if there is no such number. -/
theorem ofFraction?_eq_some_iff {negative : Bool} {num den : Nat} {x : Binary64}
    (positive : 0 < den) : ofFraction? negative num den = some x ↔
      x.isNegative = negative ∧ x.isFinite = true ∧ x.units * den = num * one := by
  constructor
  · intro read
    simp only [ofFraction?, Option.ite_none_right_eq_some, Option.some.injEq] at read
    obtain ⟨⟨finite, same⟩, rfl⟩ := read
    exact ⟨isNegative_ofRatio negative num den, finite, same⟩
  · rintro ⟨rfl, finite, same⟩
    have rounded := ofRatio_eq_self x finite positive same
    simp [ofFraction?, rounded, finite, same]

/-! ### Digits -/

private theorem hexDigit?_digitChar {d : Nat} (small : d < 16) :
    hexDigit? (Nat.digitChar d).toUpper = some d := by
  have each : ∀ d : Fin 16, hexDigit? (Nat.digitChar d).toUpper = some d.val := by decide
  exact each ⟨d, small⟩

private theorem natOfHex?_zeros (count : Nat) : natOfHex? 0 (List.replicate count '0') = some 0 := by
  induction count with
  | zero => rfl
  | succ count ih => exact ih

theorem natOfHex?_append (front : Nat) (left right : List Char) :
    natOfHex? front (left ++ right) = (natOfHex? front left).bind (natOfHex? · right) := by
  simp [natOfHex?, List.foldlM_append]

/-- The digits of a number are read as the number. -/
theorem natOfHex?_toDigits (n : Nat) :
    natOfHex? 0 ((Nat.toDigits 16 n).map Char.toUpper) = some n := by
  induction n using Nat.strongRecOn with
  | ind n ih =>
    by_cases small : n < 16
    · rw [Nat.toDigits_of_lt_base small]
      simp [natOfHex?, hexDigit?_digitChar small]
    · have last := hexDigit?_digitChar (Nat.mod_lt n (by decide : 0 < 16))
      rw [Nat.toDigits_of_base_le (by decide) (by omega), List.map_append, natOfHex?_append,
        ih (n / 16) (by omega)]
      simp [natOfHex?, last, Nat.div_add_mod]

private theorem ofHex?_padded {digits : List Char} {n : Nat} (short : digits.length ≤ 16)
    (written : natOfHex? 0 digits = some n) :
    ofHex? (List.replicate (16 - digits.length) '0' ++ digits) = some ⟨.ofNat n⟩ := by
  have full : (List.replicate (16 - digits.length) '0' ++ digits).length = 16 := by
    rw [List.length_append, List.length_replicate]
    omega
  rw [ofHex?, if_pos full, natOfHex?_append, natOfHex?_zeros, Option.bind_some, written,
    Option.map_some]

/-- A constant in base 16 is read as the number with its bits. -/
theorem ofConstant?_hex (x : Binary64) : ofConstant? x.hex = some x := by
  have short : ((Nat.toDigits 16 x.bits.toNat).map Char.toUpper).length ≤ 16 := by
    rw [List.length_map, Nat.length_toDigits_le_iff (by decide) (by decide)]
    exact x.bits.toNat_lt
  have written := ofHex?_padded short (natOfHex?_toDigits x.bits.toNat)
  rw [UInt64.ofNat_toNat] at written
  simpa [ofConstant?, hex] using written

private theorem ofDecimal?_whole (negative : Bool) (n : Nat) :
    ofDecimal? negative (Nat.toDigits 10 n ++ ['.', '0']) = ofFraction? negative (10 * n) 10 := by
  have digits : ∀ c ∈ Nat.toDigits 10 n, c.isDigit = true := fun c member =>
    Nat.isDigit_of_mem_toDigits (by decide) (by decide) member
  rw [ofDecimal?, List.takeWhile_append_of_pos digits, List.dropWhile_append_of_pos digits]
  simp [Nat.ofDigitChars_append]
  rfl

/-- A text without a sign and without the mark of base 16 is a decimal constant. -/
theorem ofConstant?_unsigned {text : String}
    (plain : ∀ c ∈ text.toList, c ≠ 'x' ∧ c ≠ '-' ∧ c ≠ '+') :
    ofConstant? text = ofDecimal? false text.toList := by
  unfold ofConstant?
  split
  · rename_i digits parts
    exact absurd rfl (plain 'x' (by simp [parts])).1
  · rename_i rest parts
    exact absurd rfl (plain '-' (by simp [parts])).2.1
  · rename_i rest parts
    exact absurd rfl (plain '+' (by simp [parts])).2.2
  · rfl

/-- The constant of a whole number is read as ten times the number, in tenths. -/
theorem ofConstant?_whole (negative : Bool) (n : Nat) :
    ofConstant? ((if negative then "-" else "") ++ toString n ++ ".0") =
      ofFraction? negative (10 * n) 10 := by
  rw [← ofDecimal?_whole]
  have digits : (toString n ++ ".0").toList = Nat.toDigits 10 n ++ ['.', '0'] := by simp
  cases negative with
  | true => simp [ofConstant?]
  | false =>
    have plain : ∀ c ∈ (toString n ++ ".0").toList, c ≠ 'x' ∧ c ≠ '-' ∧ c ≠ '+' := by
      intro c member
      rw [digits, List.mem_append] at member
      rcases member with digit | other
      · have isDigit := Nat.isDigit_of_mem_toDigits (by decide) (by decide) digit
        refine ⟨?_, ?_, ?_⟩ <;> rintro rfl <;> simp at isDigit
      · simp only [List.mem_cons, List.not_mem_nil, or_false] at other
        rcases other with rfl | rfl <;> decide
    simpa [digits] using ofConstant?_unsigned plain

/-- The constant of a number is read as this number, so no two numbers have one constant. -/
theorem ofConstant?_llvm :
    (∀ x : Binary64, ofConstant? x.llvm = some x) ∧ Function.Injective llvm := by
  have reads (x : Binary64) : ofConstant? x.llvm = some x := by
    unfold llvm
    split
    · rename_i whole
      obtain ⟨finite, even, -⟩ := whole
      have exact : x.units * 10 = 10 * (x.units / one) * one := by
        rw [Nat.mul_comm, Nat.mul_assoc, Nat.div_mul_cancel (Nat.dvd_of_mod_eq_zero even)]
      rw [ofConstant?_whole]
      exact (ofFraction?_eq_some_iff (by decide)).mpr ⟨rfl, finite, exact⟩
    · exact ofConstant?_hex x
  refine ⟨reads, fun x y same => ?_⟩
  have back := reads x
  rw [same, reads y] at back
  exact (Option.some.inj back).symm

end Wabbit.Binary64
