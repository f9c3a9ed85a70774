import GeoQuery.Decimal.Basic

/-!
The shortest decimal that denotes a magnitude. For each digit count the two points of the decimal
grid around the value are tried; the first grid with a point that reads back wins, and of two
such points the nearer one. A value exactly between them is decided by a `Tie`.
-/

namespace GeoQuery

inductive Tie
  | up
  | even
deriving DecidableEq

namespace Decimal

/-- The least `k ≤ 0` with `num / den < 10 ^ k`, for a ratio below one: counts the zeros behind
the point, of which there are fewer than `fuel`. -/
def leadingZeros (num den : Nat) : Nat → Nat
  | 0 => 0
  | fuel + 1 => if den ≤ 10 * num then 0 else leadingZeros (10 * num) den fuel + 1

/-- The least `k` with `num / den < 10 ^ k`. No magnitude of the format needs more than 400 zeros
behind the point. -/
def order (num den : Nat) : Int :=
  if den ≤ num then (Nat.toDigits 10 (num / den)).length else -(leadingZeros num den 400 : Nat)

/-- The two points of the grid `10 ^ exponent` around a ratio, and how the ratio lies between them:
twice its distance from the lower one, compared with the width of the grid. -/
structure Bracket where
  lower : Decimal
  upper : Decimal
  side : Ordering

def bracket (num den : Nat) (exponent : Int) : Bracket :=
  let num := num * Nat.pow 10 (-exponent).toNat
  let den := den * Nat.pow 10 exponent.toNat
  { lower := ⟨num / den, exponent⟩
    upper := ⟨num / den + 1, exponent⟩
    side := compare (2 * (num % den)) den }

def Bracket.nearer (tie : Tie) (b : Bracket) : Decimal :=
  match b.side, tie with
  | .lt, _ => b.lower
  | .gt, _ => b.upper
  | .eq, .up => b.upper
  | .eq, .even => if b.lower.coefficient % 2 = 0 then b.lower else b.upper

/-- The end of a bracket that denotes `x`, the nearer one if both do. -/
def Bracket.denoting? (tie : Tie) (x : Magnitude) (b : Bracket) : Option Decimal :=
  if b.lower.ReadsAs x then
    if b.upper.ReadsAs x then some (b.nearer tie) else some b.lower
  else if b.upper.ReadsAs x then some b.upper
  else none

/-- The decimal with exactly the value of a magnitude: a ratio over `2 ^ k` is a ratio over
`10 ^ k`. -/
def exact (x : Magnitude) : Decimal :=
  ⟨x.numerator * Nat.pow 5 (1074 - x.scale), -(1074 - x.scale : Nat)⟩

/-- Divide out the zeros at the end of the coefficient, of which at most `fuel` are looked at. -/
def trim : Nat → Decimal → Decimal
  | 0, d => d
  | fuel + 1, d =>
    if d.coefficient % 10 = 0 then trim fuel ⟨d.coefficient / 10, d.exponent + 1⟩ else d

/-- The shortest decimal that denotes a positive magnitude, and the nearest to it of its length.
Seventeen digits are enough for every magnitude of the format. -/
def shortest (tie : Tie) (x : Magnitude) : Decimal :=
  let order := order x.numerator x.denominator
  let found := (List.range' 1 17).findSome? fun (digits : Nat) =>
    (bracket x.numerator x.denominator (order - digits)).denoting? tie x
  trim 20 (found.getD (exact x))

end Decimal

end GeoQuery
