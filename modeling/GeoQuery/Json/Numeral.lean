import GeoQuery.Json.Fault
import GeoQuery.Decimal.Basic

/-!
Numerals of a JSON text: their grammar, and the two values a numeral has. The exact value is a
decimal. The value that a reader takes from it is an approximation: the leading digits that fit 64
bits, scaled by a power of ten in one or more rounded operations.
-/

namespace GeoQuery

namespace Json

structure Exponent where
  negative : Bool
  digits : List Char
deriving DecidableEq

def Exponent.value (e : Exponent) : Int :=
  if e.negative then -(digitsValue e.digits : Int) else digitsValue e.digits

/-- A numeral as it is written. There is a point if there are digits behind it. -/
structure Numeral where
  negative : Bool
  whole : List Char
  fraction : List Char
  exponent : Option Exponent
deriving DecidableEq

namespace Numeral

/-- The digits before the point: a single zero, or a row that starts with another digit. Where the
text ends instead, `ended` is the cause. -/
def scanWhole (ended : Cause) : List Char → Except Fault (List Char × List Char)
  | [] => .error (.placed ended 0)
  | c :: rest =>
    if c = '0' then
      if rest.head?.any Char.isDigit then .error (.looking rest .invalidNumber) else .ok ([c], rest)
    else if c.isDigit then .ok (c :: rest.takeWhile Char.isDigit, rest.dropWhile Char.isDigit)
    else .error (.looking (c :: rest) .invalidNumber)

def scanFraction (ended : Cause) : List Char → Except Fault (List Char × List Char)
  | '.' :: [] => .error (.placed ended 0)
  | '.' :: c :: rest =>
    if c.isDigit then .ok (c :: rest.takeWhile Char.isDigit, rest.dropWhile Char.isDigit)
    else .error (.looking (c :: rest) .invalidNumber)
  | rest => .ok ([], rest)

def scanSign : List Char → Bool × List Char
  | '-' :: rest => (true, rest)
  | '+' :: rest => (false, rest)
  | rest => (false, rest)

def scanExponent (ended : Cause) : List Char → Except Fault (Option Exponent × List Char)
  | [] => .ok (none, [])
  | c :: rest =>
    if c = 'e' ∨ c = 'E' then
      match scanSign rest with
      | (_, []) => .error (.placed ended 0)
      | (negative, d :: rest) =>
        if d.isDigit then
          .ok (some ⟨negative, d :: rest.takeWhile Char.isDigit⟩, rest.dropWhile Char.isDigit)
        else .error (.looking (d :: rest) .invalidNumber)
    else .ok (none, c :: rest)

def scan (ended : Cause) (negative : Bool) (text : List Char) :
    Except Fault (Numeral × List Char) := do
  let (whole, rest) ← scanWhole ended text
  let (fraction, rest) ← scanFraction ended rest
  let (exponent, rest) ← scanExponent ended rest
  return (⟨negative, whole, fraction, exponent⟩, rest)

def exponentValue (n : Numeral) : Int := n.exponent.elim 0 Exponent.value

def exact (n : Numeral) : Decimal :=
  ⟨digitsValue (n.whole ++ n.fraction), n.exponentValue - n.fraction.length⟩

def nearest (n : Numeral) : Binary64 := .ofMagnitude? n.negative n.exact.nearest?

/-- Append digits to a significand as long as it fits 64 bits; also the digits left over. -/
def fit (significand : Nat) : List Char → Nat × List Char
  | [] => (significand, [])
  | d :: rest =>
    let next := 10 * significand + (d.toNat - '0'.toNat)
    if next < 0x10000000000000000 then fit next rest else (significand, d :: rest)

/-- The absolute value with a significand of 64 bits. A digit before the point that does not fit
counts as a zero, and digits behind the point that do not fit are left out. -/
def leading (n : Numeral) : Decimal :=
  let (significand, dropped) := fit 0 n.whole
  let (significand, ignored) := fit significand n.fraction
  ⟨significand, dropped.length - (n.fraction.length - ignored.length : Nat) + n.exponentValue⟩

/-- The magnitude nearest to a power of ten up to the 308th, the last one in range. -/
def tenTo (k : Nat) : Magnitude := (Magnitude.ofNat? (Nat.pow 10 k)).getD .zero

/-- A magnitude times a power of ten by rounded operations: one if the power is in range, and
divisions by 10³⁰⁸ before it while it is too small. None if the product is out of range. -/
def scale? (x : Magnitude) (exponent : Int) : Option Magnitude :=
  if exponent.natAbs ≤ 308 then
    if 0 ≤ exponent then x.mul? (tenTo exponent.natAbs) else x.div? (tenTo exponent.natAbs)
  else if x.isZero then some x
  else if 0 ≤ exponent then none
  else (x.div? (tenTo 308)).bind (scale? · (exponent + 308))
termination_by exponent.natAbs
decreasing_by omega

def magnitude? (n : Numeral) : Option Magnitude :=
  let d := n.leading
  (Magnitude.ofNat? d.coefficient).bind (scale? · d.exponent)

/-- The value if the numeral has neither point nor exponent and its value is an integer of 64 bits,
signed or unsigned. A negative zero is not an integer. -/
def integer? (n : Numeral) : Option Integer :=
  let value := digitsValue n.whole
  if n.fraction = [] ∧ n.exponent = none then
    if n.negative then
      if h : 0 < value ∧ value ≤ 0x8000000000000000 then some ⟨-value, by omega, by omega⟩ else none
    else if h : value < 0x10000000000000000 then some (.ofNat value h) else none
  else none

/-- The number that a reader takes from a numeral; none if it is out of range. -/
def value? (n : Numeral) : Option Number :=
  match n.integer? with
  | some i => some (.integer i)
  | none => n.magnitude?.map fun m => .fraction ⟨n.negative, m⟩

/-- The digits behind the one at which the exponent leaves the 32-bit range. -/
def beyondExponent (value : Nat) : List Char → List Char
  | [] => []
  | d :: rest =>
    let next := 10 * value + (d.toNat - '0'.toNat)
    if next < 0x80000000 then beyondExponent next rest else rest

def unreadDigits (n : Numeral) : Nat := n.exponent.elim 0 fun e => (beyondExponent 0 e.digits).length

def read (negative : Bool) (text : List Char) : Except Fault (Number × List Char) := do
  let (numeral, rest) ← scan (.unfinished .value) negative text
  match numeral.value? with
  | some number => return (number, rest)
  | none => throw (.placed (.malformed .numberOutOfRange) (byteCount rest + numeral.unreadDigits))

end Numeral

end Json

/-- The correctly rounded value of a text that is one numeral. -/
def Binary64.ofNumeral? (text : String) : Option Binary64 :=
  let (negative, digits) := match text.toList with
    | '-' :: rest => (true, rest)
    | rest => (false, rest)
  match Json.Numeral.scan (.unfinished .value) negative digits with
  | .ok (numeral, []) => some numeral.nearest
  | _ => none

end GeoQuery
