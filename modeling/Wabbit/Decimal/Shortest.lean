import Wabbit.Binary64

/-!
The shortest decimal that reads back as a given floating point number. On the grids of one, two, …
significant digits the two neighbours of the number are tried; the first grid with a neighbour that
rounds to the number wins.
-/

namespace Wabbit

/-- The number `digits * 10 ^ exponent`. -/
structure Decimal where
  digits : Nat
  exponent : Int
  deriving DecidableEq, Repr

namespace Decimal

/-- The digits, most significant first. -/
def digitChars (n : Nat) : List Char := Nat.toDigits 10 n

/-- Moves trailing zeros of the digits into the exponent, at most `fuel` of them. -/
def strip : Nat → Decimal → Decimal
  | 0, d => d
  | fuel + 1, d =>
    if d.digits % 10 = 0 then strip fuel ⟨d.digits / 10, d.exponent + 1⟩ else d

/-- The power of ten of the first significant digit of a positive finite number. -/
def magnitude (x : Binary64) : Int :=
  ((digitChars (x.units * Nat.pow 10 400 / Binary64.one)).length : Int) - 401

/-- The multiple of `10 ^ exponent` next to the number that rounds to it: the nearer one if both
neighbours do, the upper one if they are equally near. The interval of reals that round to the
number reaches half way to its neighbours and includes its ends if the significand is even. -/
def nearest? (x : Binary64) (exponent : Int) : Option Decimal :=
  let scale := Nat.pow 10 (-exponent).toNat
  let unit := 4 * Binary64.one * Nat.pow 10 exponent.toNat
  let value := 4 * x.units * scale
  let gap := scale <<< x.shift
  let below := if x.fractionField = 0 ∧ 1 < x.exponentField then gap else 2 * gap
  let closed := x.significand % 2 = 0
  let floor := value / unit
  let inside (distance reach : Nat) : Bool := distance < reach ∨ (closed ∧ distance = reach)
  let down := inside (value - floor * unit) below
  let up := inside ((floor + 1) * unit - value) (2 * gap)
  if up ∧ (¬ down ∨ unit ≤ 2 * (value - floor * unit)) then some ⟨floor + 1, exponent⟩
  else if down then some ⟨floor, exponent⟩
  else none

/-- The shortest decimal that rounds to a positive finite number, the nearest one of those. -/
def shortest (x : Binary64) : Decimal :=
  let top := magnitude x
  let found := (List.range 17).findSome? (fun (n : Nat) => nearest? x (top - n))
  strip 17 (found.getD ⟨x.units, 0⟩)

end Decimal

end Wabbit
