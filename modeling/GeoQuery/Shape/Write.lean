import GeoQuery.Shape.Basic

/-!
Writing a value of a shape as JSON: records as objects in the order of their fields, optional fields
left out when they have no value, and the tag of a tagged record first.
-/

namespace GeoQuery

def Scalar.toJson : (kind : Scalar) → kind.Value → Json
  | .text, s => .text s
  | .number, x => .ofBinary64 x
  | .word64, n => .leaf (.number (.integer (.ofUInt64 n)))
  | .word32, n => .leaf (.number (.integer (.ofUInt32 n)))
  | .flag, b => .leaf (.boolean b)
  | .nothing, () => .null

mutual

def Shape.toJson : (shape : Shape) → shape.Value → Json
  | .scalar kind, value => kind.toJson value
  | .json, value => value.json
  | .optional inner, value =>
    match value with
    | none => .null
    | some value => inner.toJson value
  | .list item, values => .array (values.map fun value => item.toJson value)
  | .record _ _ fields, values => .object (fields.toMembers values)
  | .choice variants, value => variants.toJson value
  | .tagged _ tag cases, value => .object (cases.toMembers tag value)

def Fields.toMembers : (fields : Fields) → fields.Value → List (String × Json)
  | .nil, () => []
  | .required name shape rest, (value, values) =>
    (name, shape.toJson value) :: rest.toMembers values
  | .optional name shape rest, (value, values) =>
    match value with
    | none => rest.toMembers values
    | some value => (name, shape.toJson value) :: rest.toMembers values

def Variants.toJson : (variants : Variants) → variants.Value → Json
  | .bare name _, .inl () => .text name
  | .bare _ rest, .inr value => rest.toJson value
  | .carrying name _ shape _, .inl value => .object [(name, shape.toJson value)]
  | .carrying _ _ _ rest, .inr value => rest.toJson value

def Cases.toMembers (tag : String) : (cases : Cases) → cases.Value → List (String × Json)
  | .cons name _ fields _, .inl values => (tag, .text name) :: fields.toMembers values
  | .cons _ _ _ rest, .inr value => rest.toMembers tag value

end

/-- A list as the value of a field that is left out when the list is empty. -/
def listValue {α β : Type} (f : α → β) : List α → Option (List β)
  | [] => none
  | values => some (values.map f)

/-- A flag as the value of a field that is left out when the flag is down. -/
def flagValue : Bool → Option Bool
  | false => none
  | true => some true

end GeoQuery
