/-!
Floating point numbers as 64 bit words. A word is a sign, eleven bits of exponent and 52 bits of
fraction; the magnitude of a finite word is `significand * 2 ^ shift / 2 ^ 1074`, so all that is
read off a number here is exact arithmetic on natural numbers. Only the four operators go through
the machine.
-/

namespace Wabbit

/-- A floating point number, given by its bits. -/
structure Binary64 where
  bits : UInt64
  deriving DecidableEq, Repr

/-- The nearest integer to `num / den`; a half goes to the even neighbour. -/
def roundHalfEven (num den : Nat) : Nat :=
  let quotient := num / den
  let rest := 2 * (num % den)
  if den < rest ∨ (rest = den ∧ quotient % 2 = 1) then quotient + 1 else quotient

namespace Binary64

def zero : Binary64 := ⟨0⟩

def isNegative (x : Binary64) : Bool := 1 <<< 63 ≤ x.bits.toNat

def exponentField (x : Binary64) : Nat := (x.bits.toNat >>> 52) % 2048

def fractionField (x : Binary64) : Nat := x.bits.toNat % (1 <<< 52)

def isFinite (x : Binary64) : Bool := x.exponentField ≠ 2047

def isNaN (x : Binary64) : Bool := x.exponentField = 2047 ∧ x.fractionField ≠ 0

/-- The significand, with the bit that normal numbers leave unwritten. -/
def significand (x : Binary64) : Nat :=
  if x.exponentField = 0 then x.fractionField else 1 <<< 52 + x.fractionField

/-- The power of two that scales the significand, counted from the smallest positive number. -/
def shift (x : Binary64) : Nat := x.exponentField - 1

/-- The magnitude of a finite number in units of `1 / 2 ^ 1074`. -/
def units (x : Binary64) : Nat := x.significand <<< x.shift

/-- How many units make up one. -/
def one : Nat := 1 <<< 1074

/-- The word with the given sign and magnitude bits. -/
def ofMagnitude (negative : Bool) (magnitude : Nat) : Binary64 :=
  ⟨UInt64.ofNat (if negative then 1 <<< 63 + magnitude else magnitude)⟩

/-- The number nearest to `num / den`; a half goes to the even significand, and what is too large
becomes infinite. The bits of `m * 2 ^ e` units are `e * 2 ^ 52 + m`, whether the number is normal
or not. -/
def ofRatio (negative : Bool) (num den : Nat) : Binary64 :=
  let whole := num * one / den
  let e := if whole < 1 <<< 53 then 0 else whole.log2 - 52
  let m := roundHalfEven (num * one) (den <<< e)
  ofMagnitude negative (min (e <<< 52 + m) (2047 <<< 52))

def ofInt (value : Int) : Binary64 := ofRatio (value < 0) value.natAbs 1

/-- The integer part, cut off towards zero and kept inside 64 bits; zero if not a number. -/
def toInt64 (x : Binary64) : Int64 :=
  if x.isNaN then 0
  else
    let magnitude := if x.isFinite then x.units / one else 1 <<< 63
    let signed : Int := if x.isNegative then -magnitude else magnitude
    Int64.ofInt (max Int64.minValue.toInt (min Int64.maxValue.toInt signed))

/-- The number with the other sign. -/
def neg (x : Binary64) : Binary64 := ⟨x.bits ^^^ 0x8000000000000000⟩

def lift (f : Float → Float → Float) (x y : Binary64) : Binary64 :=
  ⟨(f (Float.ofBits x.bits) (Float.ofBits y.bits)).toBits⟩

def add : Binary64 → Binary64 → Binary64 := lift (· + ·)

def sub : Binary64 → Binary64 → Binary64 := lift (· - ·)

def mul : Binary64 → Binary64 → Binary64 := lift (· * ·)

def div : Binary64 → Binary64 → Binary64 := lift (· / ·)

end Binary64

end Wabbit
