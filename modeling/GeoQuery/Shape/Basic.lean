import GeoQuery.Json.Fault
import GeoQuery.Json.Value

/-!
Shapes of values: which JSON a kind of value is written as, and the type of what is read from it.
The readers and the writer of `GeoQuery.Shape` are defined once for all shapes, so a description of
a new kind of value is a shape and two conversions.
-/

namespace GeoQuery

inductive Scalar
  | text
  | number
  | word64
  | word32
  | flag
  | nothing
deriving DecidableEq

/-- What a record does with a member that it has no field for. -/
inductive Extra
  | refused
  | ignored
deriving DecidableEq

/-- How a variant carries its value: as it is, or as named fields that belong to the variant. -/
inductive Carrying
  | value
  | fields
deriving DecidableEq

def Carrying.label : Carrying → String
  | .value => "newtype variant"
  | .fields => "struct variant"

mutual

/-- A shape. Records and tagged choices know the label that messages have for them. -/
inductive Shape
  | scalar (kind : Scalar)
  /-- Any JSON value, without repeated names. -/
  | json
  /-- Nothing, written as null, or a value. -/
  | optional (inner : Shape)
  | list (item : Shape)
  /-- Fields by name, or all fields in order. -/
  | record (label : String) (extra : Extra) (fields : Fields)
  /-- The name of a variant, or the name with what the variant carries. -/
  | choice (variants : Variants)
  /-- A record whose other fields depend on the one named `tag`. -/
  | tagged (label : String) (tag : String) (cases : Cases)

/-- The fields of a record in order. An optional field may be left out. -/
inductive Fields
  | nil
  | required (name : String) (shape : Shape) (rest : Fields)
  | optional (name : String) (shape : Shape) (rest : Fields)

inductive Variants
  | nil
  | bare (name : String) (rest : Variants)
  | carrying (name : String) (way : Carrying) (shape : Shape) (rest : Variants)

/-- The records of a tagged choice, each with its tag and its label. -/
inductive Cases
  | nil
  | cons (name : String) (label : String) (fields : Fields) (rest : Cases)

end

def Scalar.Value : Scalar → Type
  | .text => String
  | .number => Binary64
  | .word64 => UInt64
  | .word32 => UInt32
  | .flag => Bool
  | .nothing => Unit

mutual

def Shape.Value : Shape → Type
  | .scalar kind => kind.Value
  | .json => Json.Value
  | .optional inner => Option inner.Value
  | .list item => List item.Value
  | .record _ _ fields => fields.Value
  | .choice variants => variants.Value
  | .tagged _ _ cases => cases.Value

def Fields.Value : Fields → Type
  | .nil => Unit
  | .required _ shape rest => shape.Value × rest.Value
  | .optional _ shape rest => Option shape.Value × rest.Value

def Variants.Value : Variants → Type
  | .nil => Empty
  | .bare _ rest => Unit ⊕ rest.Value
  | .carrying _ _ shape rest => shape.Value ⊕ rest.Value

def Cases.Value : Cases → Type
  | .nil => Empty
  | .cons _ _ fields rest => fields.Value ⊕ rest.Value

end

/-- The values read so far for the fields of a record. -/
def Fields.Slots : Fields → Type
  | .nil => Unit
  | .required _ shape rest | .optional _ shape rest => Option shape.Value × rest.Slots

def Fields.emptySlots : (fields : Fields) → fields.Slots
  | .nil => ()
  | .required _ _ rest | .optional _ _ rest => (none, rest.emptySlots)

def Fields.names : Fields → List String
  | .nil => []
  | .required name _ rest | .optional name _ rest => name :: rest.names

def Variants.names : Variants → List String
  | .nil => []
  | .bare name rest | .carrying name _ _ rest => name :: rest.names

def Cases.names : Cases → List String
  | .nil => []
  | .cons name _ _ rest => name :: rest.names

/-- A label with the number of fields it stands for. -/
def Fields.counted (label : String) (fields : Fields) : String :=
  let count := fields.names.length
  label ++ " with " ++ toString count ++ (if count = 1 then " element" else " elements")

/-- The record that the slots hold; the first field without a value is missing. -/
def Fields.ofSlots : (fields : Fields) → fields.Slots → Except Json.Mismatch fields.Value
  | .nil, () => .ok ()
  | .required name _ rest, (slot, slots) =>
    match slot with
    | none => .error (.missingField name)
    | some value => (rest.ofSlots slots).map fun values => (value, values)
  | .optional _ _ rest, (slot, slots) => (rest.ofSlots slots).map fun values => (slot, values)

namespace Scalar

def label : Scalar → String
  | .text => "a string"
  | .number => "f64"
  | .word64 => "u64"
  | .word32 => "u32"
  | .flag => "a boolean"
  | .nothing => "unit"

/-- The value of this kind that stands in a text, if there is one. Numbers take integers; words
take no fraction, whatever its value. -/
def accept (kind : Scalar) (found : Json.Found) : Except Json.Mismatch kind.Value :=
  match kind, found with
  | .text, .leaf (.text s) => .ok s
  | .number, .leaf (.number n) => .ok n.toBinary64
  | .word64, .leaf (.number (.integer i)) =>
    if 0 ≤ i.val then .ok (.ofNat i.val.toNat) else .error (.invalidValue found (label .word64))
  | .word32, .leaf (.number (.integer i)) =>
    if 0 ≤ i.val ∧ i.val < 0x100000000 then .ok (.ofNat i.val.toNat)
    else .error (.invalidValue found (label .word32))
  | .flag, .leaf (.boolean b) => .ok b
  | .nothing, .leaf .null => .ok ()
  | kind, found => .error (.invalidType found kind.label)

end Scalar

def Variants.ofName : (variants : Variants) → String → Except Json.Mismatch variants.Value
  | .nil, name => .error (.unknownVariant name [])
  | .bare known rest, name =>
    if known = name then .ok (.inl ()) else (rest.ofName name).map .inr
  | .carrying known way _ rest, name =>
    if known = name then .error (.bareVariant way.label)
    else (rest.ofName name).map .inr

/-- The name that a variant or a tag is known by: one of the known names. -/
def acceptName (known : List String) : Json.Found → Except Json.Mismatch String
  | .leaf (.text name) =>
    if known.contains name then .ok name else .error (.unknownVariant name known)
  | found => .error (.invalidType found "variant identifier")

end GeoQuery
