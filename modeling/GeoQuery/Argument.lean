import GeoQuery.Error

/-!
Arguments of a command before they are tokens: words, which stand as they are, and numbers, which
have a token only if they are finite. A query lists its arguments without looking at the numbers.
-/

namespace GeoQuery

namespace Finite64

/-- The largest 64-bit integer as a number. Rounding makes it 2⁶³. -/
def largestInt64 : Binary64 := .ofInt Int64.maxValue.toInt

/-- The number cut to a 64-bit integer, the nearest one if it is out of their range. -/
def toInt64 (x : Finite64) : Int64 :=
  let whole := x.magnitude.numerator / x.magnitude.denominator
  .ofIntClamp (if x.negative then -whole else whole)

/-- The token of a number, in plain notation, without a sign on zero: that of the integer if there is
no fraction and the integer is small enough, and the shortest digits otherwise. -/
def token (x : Finite64) : String :=
  let y := x.unsignZero
  if y.magnitude.whole?.isSome && y.magnitude.isBelow largestInt64 then toString y.toInt64
  else y.display

end Finite64

/-- The token of a number. The clause that it belongs to is named if it has none. -/
def formatNumber (clause : String) : Binary64 → Except Error String
  | .finite x => .ok x.token
  | x => .error (.nonFinite clause x)

inductive Argument
  | word (text : String)
  | number (clause : String) (value : Binary64)

namespace Argument

def encode : Argument → Except Error String
  | .word text => .ok text
  | .number clause value => formatNumber clause value

def nat (n : Nat) : Argument := .word (toString n)

def numbers (clause : String) (values : List Binary64) : List Argument :=
  values.map (.number clause)

def counted (clause : String) (values : List Binary64) : List Argument :=
  nat values.length :: numbers clause values

def point (lat lon : Binary64) (extra : Option Binary64) : List Argument :=
  .word "POINT" :: numbers "POINT" (lat :: lon :: extra.toList)

def bounds (minLat minLon maxLat maxLon : Binary64) : List Argument :=
  .word "BOUNDS" :: numbers "BOUNDS" [minLat, minLon, maxLat, maxLon]

/-- The tokens, or the error of the first argument without one. -/
def encodeAll (arguments : List Argument) : Except Error (List String) := arguments.mapM encode

end Argument

end GeoQuery
