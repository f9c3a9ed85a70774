import GeoQuery.Binary64.Rounding

/-!
JSON values. An object is the list of its members in order. As read from a text it may repeat a
name; `collapse` keeps the first place and the last value of each name.
-/

namespace GeoQuery

namespace Json

/-- An integer that fits 64 bits, signed or unsigned. -/
structure Integer where
  val : Int
  ge_min : -0x8000000000000000 ≤ val
  lt_max : val < 0x10000000000000000
deriving DecidableEq

def Integer.ofNat (n : Nat) (h : n < 0x10000000000000000) : Integer := ⟨n, by omega, by omega⟩

def Integer.ofUInt64 (n : UInt64) : Integer := .ofNat n.toNat n.toNat_lt

def Integer.ofUInt32 (n : UInt32) : Integer :=
  .ofNat n.toNat (Nat.lt_trans n.toNat_lt (by decide))

/-- A number is an integer or a fraction, by how it is written and not by its value. -/
inductive Number
  | integer (i : Integer)
  | fraction (x : Finite64)
deriving DecidableEq

/-- Equality of numbers never crosses the two kinds; fractions compare numerically. -/
def Number.equals : Number → Number → Bool
  | .integer i, .integer j => i == j
  | .fraction x, .fraction y => x.equals y
  | _, _ => false

/-- The number in the binary format; a large integer is rounded. -/
def Number.toBinary64 : Number → Binary64
  | .integer i => .ofInt i.val
  | .fraction x => .finite x

inductive Leaf
  | null
  | boolean (b : Bool)
  | number (n : Number)
  | text (s : String)
deriving DecidableEq

def Leaf.equals : Leaf → Leaf → Bool
  | .null, .null => true
  | .boolean a, .boolean b => a == b
  | .number a, .number b => a.equals b
  | .text a, .text b => a == b
  | _, _ => false

end Json

inductive Json
  | leaf (l : Json.Leaf)
  | array (items : List Json)
  | object (members : List (String × Json))

namespace Json

def null : Json := .leaf .null

def text (s : String) : Json := .leaf (.text s)

instance : Inhabited Json := ⟨null⟩

def ofBinary64 : Binary64 → Json
  | .finite x => .leaf (.number (.fraction x))
  | .infinite _ | .nan => null

mutual

/-- Structural equality in which the order of an object's members does not matter. -/
def equals : Json → Json → Bool
  | .leaf a, .leaf b => a.equals b
  | .array a, .array b => equalItems a b
  | .object a, .object b => a.length == b.length && equalMembers a b
  | _, _ => false

def equalItems : List Json → List Json → Bool
  | [], [] => true
  | a :: as, b :: bs => a.equals b && equalItems as bs
  | _, _ => false

def equalMembers : List (String × Json) → List (String × Json) → Bool
  | [], _ => true
  | (name, value) :: rest, members =>
    (match members.lookup name with
      | some other => value.equals other
      | none => false) && equalMembers rest members

end

instance : BEq Json := ⟨equals⟩

/-- Give a name a value: in place if the object has the name, at the end if not. -/
def putMember (name : String) (value : Json) : List (String × Json) → List (String × Json)
  | [] => [(name, value)]
  | (key, old) :: rest =>
    if key = name then (key, value) :: rest else (key, old) :: putMember name value rest

mutual

/-- Every object, at any depth, with repeated names put into one member. -/
def collapse : Json → Json
  | .leaf l => .leaf l
  | .array items => .array (collapseItems items)
  | .object members =>
    .object ((collapseMembers members).foldl (fun all m => putMember m.1 m.2 all) [])

def collapseItems : List Json → List Json
  | [] => []
  | item :: rest => item.collapse :: collapseItems rest

def collapseMembers : List (String × Json) → List (String × Json)
  | [] => []
  | (name, value) :: rest => (name, value.collapse) :: collapseMembers rest

end

end Json

end GeoQuery
