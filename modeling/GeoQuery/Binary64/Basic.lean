/-!
Numbers of the 64-bit binary format, held exactly. A finite magnitude is known by its place among
all finite magnitudes in increasing order, so neighbours differ by one and no case is special. No
operation of this library uses machine floating point.
-/

namespace GeoQuery

/-- A finite magnitude, by its place in increasing order. Place 0 is zero. There are 2047 scales of
2⁵² places each, and they follow each other without a gap. -/
structure Magnitude where
  rank : Nat
  rank_lt : rank < 0x7ff0000000000000
deriving DecidableEq

namespace Magnitude

instance : Inhabited Magnitude := ⟨⟨0, by decide⟩⟩

def zero : Magnitude := default

def isZero (x : Magnitude) : Bool := x.rank == 0

def scale (x : Magnitude) : Nat := x.rank / 0x10000000000000 - 1

def mantissa (x : Magnitude) : Nat := x.rank - x.scale * 0x10000000000000

/-- How many units of the smallest positive magnitude make one. -/
def unitsPerOne : Nat := Nat.pow 2 1074

def units (x : Magnitude) : Nat := x.mantissa * Nat.pow 2 x.scale

/-- Numerator of the value. Together with `denominator` it is the value exactly, with the powers of
two that cannot both matter left out. -/
def numerator (x : Magnitude) : Nat := x.mantissa * Nat.pow 2 (x.scale - 1074)

def denominator (x : Magnitude) : Nat := Nat.pow 2 (1074 - x.scale)

/-- The value as a natural number, if it is one. -/
def whole? (x : Magnitude) : Option Nat :=
  if x.numerator % x.denominator = 0 then some (x.numerator / x.denominator) else none

end Magnitude

/-- A finite number: a sign and a magnitude. Zero has both signs. -/
structure Finite64 where
  negative : Bool
  magnitude : Magnitude
deriving DecidableEq

namespace Finite64

def zero : Finite64 := ⟨false, .zero⟩

instance : Inhabited Finite64 := ⟨zero⟩

/-- Numeric equality: the two zeros are equal, and nothing else is identified. -/
def equals (x y : Finite64) : Bool :=
  x.magnitude == y.magnitude && (x.negative == y.negative || x.magnitude.isZero)

instance : BEq Finite64 := ⟨equals⟩

/-- The same number with the sign of zero forgotten. -/
def unsignZero (x : Finite64) : Finite64 :=
  if x.magnitude.isZero then zero else x

end Finite64

/-- A number of the 64-bit binary format. The payload of a NaN is never observed. -/
inductive Binary64
  | finite (x : Finite64)
  | infinite (negative : Bool)
  | nan
deriving DecidableEq

namespace Binary64

instance : Inhabited Binary64 := ⟨.finite .zero⟩

def finite? : Binary64 → Option Finite64
  | .finite x => some x
  | .infinite _ | .nan => none

def isFinite (x : Binary64) : Bool := x.finite?.isSome

def equals : Binary64 → Binary64 → Bool
  | .finite x, .finite y => x.equals y
  | .infinite s, .infinite t => s == t
  | _, _ => false

instance : BEq Binary64 := ⟨equals⟩

/-- The number with this sign and magnitude, infinite when the magnitude is out of range. -/
def ofMagnitude? (negative : Bool) : Option Magnitude → Binary64
  | some m => .finite ⟨negative, m⟩
  | none => .infinite negative

end Binary64

/-- The magnitude, without a sign, is less than the number. -/
def Magnitude.isBelow (x : Magnitude) : Binary64 → Bool
  | .finite y => !y.negative && x.rank < y.magnitude.rank
  | .infinite negative => !negative
  | .nan => false

end GeoQuery
