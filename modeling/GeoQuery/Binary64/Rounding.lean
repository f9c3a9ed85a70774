import GeoQuery.Binary64.Basic

/-!
Correct rounding: the magnitude nearest to a ratio of natural numbers, the one with the even
mantissa when two are equally near. Products and quotients are one rounding of the exact result.
-/

namespace GeoQuery

/-- The natural number nearest to `num / den`, the even one when two are equally near. -/
def roundHalfEven (num den : Nat) : Nat :=
  let quotient := num / den
  let twice := 2 * (num % den)
  if twice < den ∨ (twice = den ∧ quotient % 2 = 0) then quotient else quotient + 1

namespace Magnitude

/-- The rank that `num / den` units round to, were there no largest rank. The first 53 binary
digits are kept, fewer where the format has no smaller unit; a carry out of them lands on the
next power of two because ranks follow each other without a gap. -/
def rankOfUnits (num den : Nat) : Nat :=
  let dropped := Nat.log2 (num / den) - 52
  dropped * 0x10000000000000 + roundHalfEven num (den * Nat.pow 2 dropped)

/-- The magnitude nearest to `num / den`; none if that is beyond the largest one. -/
def ofRatio? (num den : Nat) : Option Magnitude :=
  let rank := rankOfUnits (num * unitsPerOne) den
  if h : rank < 0x7ff0000000000000 then some ⟨rank, h⟩ else none

def ofNat? (n : Nat) : Option Magnitude := ofRatio? n 1

def mul? (x y : Magnitude) : Option Magnitude :=
  ofRatio? (x.numerator * y.numerator) (x.denominator * y.denominator)

def div? (x y : Magnitude) : Option Magnitude :=
  ofRatio? (x.numerator * y.denominator) (x.denominator * y.numerator)

end Magnitude

namespace Binary64

def ofInt (i : Int) : Binary64 := ofMagnitude? (i < 0) (Magnitude.ofNat? i.natAbs)

end Binary64

end GeoQuery
