import GeoQuery.Binary64.Rounding

namespace GeoQuery

structure Decimal where
  coefficient : Nat
  exponent : Int
deriving DecidableEq

namespace Decimal

def numerator (d : Decimal) : Nat := d.coefficient * Nat.pow 10 d.exponent.toNat

def denominator (d : Decimal) : Nat := Nat.pow 10 (-d.exponent).toNat

/-- A power of two near the decimal, as a binary exponent, with `8` for `10`: not above the decimal
if its exponent is a natural number, and otherwise more than half of it. -/
def binaryOrder (d : Decimal) : Int := Nat.log2 d.coefficient + 3 * d.exponent

/-- The magnitude nearest to the decimal, correctly rounded; none beyond the largest one. From 2¹⁰²⁴
up and below 2⁻¹⁰⁷⁵ the order decides, and the power of ten is not computed. -/
def nearest? (d : Decimal) : Option Magnitude :=
  if d.coefficient = 0 then some .zero
  else if 0 ≤ d.exponent ∧ 1024 ≤ d.binaryOrder then none
  else if d.exponent < 0 ∧ d.binaryOrder < -1075 then some .zero
  else Magnitude.ofRatio? d.numerator d.denominator

/-- The decimal denotes the magnitude: correct rounding reads it back. -/
def ReadsAs (d : Decimal) (x : Magnitude) : Prop := d.nearest? = some x

instance (d : Decimal) (x : Magnitude) : Decidable (d.ReadsAs x) :=
  inferInstanceAs (Decidable (d.nearest? = some x))

end Decimal

/-- The value of a row of decimal digits, leading digit first. -/
def digitsValue (digits : List Char) : Nat :=
  digits.foldl (fun n c => 10 * n + (c.toNat - '0'.toNat)) 0

end GeoQuery
