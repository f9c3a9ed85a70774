import GeoQuery.Decimal.Shortest

namespace GeoQuery.Decimal

def zeros (n : Nat) : List Char := List.replicate n '0'

def digits (d : Decimal) : List Char := Nat.toDigits 10 d.coefficient

def magnitudeOrder (d : Decimal) : Int := d.digits.length + d.exponent - 1

/-- Positional notation without an exponent: no point in a whole number, one zero before the point
of a number below one. -/
def plain (d : Decimal) : List Char :=
  let digits := d.digits
  let places := (-d.exponent).toNat
  if places = 0 then digits ++ zeros d.exponent.toNat
  else if places < digits.length then
    digits.take (digits.length - places) ++ '.' :: digits.drop (digits.length - places)
  else '0' :: '.' :: zeros (places - digits.length) ++ digits

def pointed (d : Decimal) : List Char :=
  if 0 ≤ d.exponent then d.plain ++ ['.', '0'] else d.plain

def scientific (d : Decimal) : List Char :=
  let order := d.magnitudeOrder
  let mantissa := match d.digits with
    | first :: second :: rest => first :: '.' :: second :: rest
    | single => single
  mantissa ++ 'e' :: (if 0 ≤ order then '+' else '-') :: Nat.toDigits 10 order.natAbs

/-- Positional from 10⁻⁵ up to but not including 10¹⁶, scientific outside. -/
def general (d : Decimal) : List Char :=
  if -5 ≤ d.magnitudeOrder ∧ d.magnitudeOrder < 16 then d.pointed else d.scientific

end GeoQuery.Decimal
