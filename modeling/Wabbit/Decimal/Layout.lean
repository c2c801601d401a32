import Wabbit.Decimal.Shortest

/-!
How floating point numbers are written in listings: the shortest digits that read back, positionally
for middling magnitudes and with an exponent for all others.
-/

namespace Wabbit

/-- The choices of a way to write floating point numbers. -/
structure Decimal.Layout where
  /-- The smallest power of ten of the first digit that is written positionally. -/
  least : Int
  /-- The smallest power of ten above those that are written positionally. -/
  limit : Int
  /-- What follows the last digit of a whole number. -/
  whole : String
  /-- What stands before the exponent. -/
  mark : String

namespace Decimal.Layout

/-- The digits with a point after the first `place` of them, padded with zeros as needed. -/
def positional (layout : Layout) (digits : List Char) (place : Int) : String :=
  if place ≤ 0 then "0." ++ String.ofList (List.replicate (-place).toNat '0' ++ digits)
  else if digits.length ≤ place.toNat then
    String.ofList (digits ++ List.replicate (place.toNat - digits.length) '0') ++ layout.whole
  else String.ofList (digits.take place.toNat) ++ "." ++ String.ofList (digits.drop place.toNat)

/-- One digit, a point and the other digits if there are any, and the exponent. -/
def scientific (layout : Layout) (digits : List Char) (exponent : Int) : String :=
  let rest := digits.drop 1
  String.ofList (digits.take 1) ++ (if rest.isEmpty then "" else "." ++ String.ofList rest)
    ++ layout.mark ++ toString exponent

/-- The text of a positive decimal. -/
def magnitude (layout : Layout) (d : Decimal) : String :=
  let digits := digitChars d.digits
  let top := d.exponent + (digits.length : Int) - 1
  if layout.least ≤ top ∧ top < layout.limit then layout.positional digits (top + 1)
  else layout.scientific digits top

def write (layout : Layout) (x : Binary64) : String :=
  let sign := if x.isNegative then "-" else ""
  if x.isNaN then "NaN"
  else if ¬ x.isFinite then sign ++ "inf"
  else if x.units = 0 then sign ++ "0" ++ layout.whole
  else sign ++ layout.magnitude (shortest x)

end Decimal.Layout

/-- Listings write numbers from 0.0001 up to 10^16 positionally and keep a digit behind the
point. -/
def Decimal.listing : Decimal.Layout := ⟨-4, 16, ".0", "e"⟩

def Binary64.text (x : Binary64) : String := Decimal.listing.write x

end Wabbit
