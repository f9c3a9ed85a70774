import GeoQuery.Shape.Basic

/-!
Reading a value of a shape from a JSON value. A record is read from an object or from an array of
its fields in order; names may stand in any order, and the first mismatch in the order of the JSON
value is the one that is reported.
-/

namespace GeoQuery

open Json (Mismatch)

/-- The fields of a tagged record, without the tag. -/
inductive Content
  | items (items : List Json)
  | members (members : List (String × Json))

/-- Split off the tag of a tagged record: its name, and the other members in order. -/
def splitTag (tag : String) (known : List String) :
    Option String → List (String × Json) → Except Mismatch (String × List (String × Json))
  | none, [] => .error (.missingField tag)
  | some name, [] => .ok (name, [])
  | found, (key, value) :: rest =>
    if key = tag then
      if found.isSome then .error (.duplicateField tag)
      else do splitTag tag known (some (← acceptName known value.found)) rest
    else (splitTag tag known found rest).map fun (name, others) => (name, (key, value) :: others)

/-- The values of the fields from members in any order, each put into its slot. -/
def Fields.ofMembers (extra : Extra) (fields : Fields)
    (put : String → Json → fields.Slots → Except Mismatch fields.Slots)
    (members : List (String × Json)) : Except Mismatch fields.Value := do
  let slots ← members.foldlM (fun slots (name, json) =>
    if extra = .ignored ∧ !fields.names.contains name then .ok slots
    else put name json slots) fields.emptySlots
  fields.ofSlots slots

/-- How many fields a tagged record has, for one that is written with more. -/
def elementsInSequence (count : Nat) : String :=
  toString count ++ (if count = 1 then " element in sequence" else " elements in sequence")

/-- Nothing for null, else what the reader makes of the value. -/
def asOptional {α : Type} (inner : Json → Except Mismatch α) : Json → Except Mismatch (Option α)
  | .leaf .null => .ok none
  | json => (inner json).map some

def asList {α : Type} (item : Json → Except Mismatch α) : Json → Except Mismatch (List α)
  | .array items => items.mapM item
  | json => .error (.invalidType json.found "a sequence")

/-- A record from its fields in order, of which none may be left over, or from its members. -/
def asRecord {α : Type} (label : String)
    (ofItems : List Json → Except Mismatch (α × List Json))
    (ofMembers : List (String × Json) → Except Mismatch α) : Json → Except Mismatch α
  | .array items => do
    let (value, left) ← ofItems items
    if left.isEmpty then return value
    else throw (.invalidLength items.length "fewer elements in array")
  | .object members => ofMembers members
  | json => .error (.invalidType json.found label)

/-- A variant from its name, or from an object with its name and what it carries. -/
def asChoice {α : Type} (names : List String) (ofName : String → Except Mismatch α)
    (ofCarried : String → Json → Except Mismatch α) : Json → Except Mismatch α
  | .object [(name, json)] => do ofCarried (← acceptName names (.leaf (.text name))) json
  | .object _ => .error (.invalidValue .object "map with a single key")
  | .leaf (.text name) => do ofName (← acceptName names (.leaf (.text name)))
  | json => .error (.invalidType json.found "string or map")

/-- A tagged record: the tag comes first in an array and stands anywhere in an object. -/
def asTagged {α : Type} (label tag : String) (names : List String)
    (ofContent : String → Content → Except Mismatch α) : Json → Except Mismatch α
  | .array [] => .error (.missingField tag)
  | .array (name :: items) => do ofContent (← acceptName names name.found) (.items items)
  | .object members => do
    let (name, others) ← splitTag tag names none members
    ofContent name (.members others)
  | json => .error (.invalidType json.found label)

/-- What a variant carries. Fields that belong to a variant have to be named. -/
def Carrying.accept {α : Type} (way : Carrying) (ofJson : Json → Except Mismatch α) :
    Json → Except Mismatch α
  | .object members => ofJson (.object members)
  | json =>
    match way with
    | .value => ofJson json
    | .fields => .error (.invalidType json.found way.label)

/-- The fields behind a tag, in order with none left over, or by name. -/
def Content.accept {α : Type} (ofItems : List Json → Except Mismatch (α × List Json))
    (ofMembers : List (String × Json) → Except Mismatch α) : Content → Except Mismatch α
  | .items all => do
    let (value, left) ← ofItems all
    if left.isEmpty then return value
    else throw (.invalidLength all.length (elementsInSequence (all.length - left.length)))
  | .members all => ofMembers all

mutual

def Shape.ofJson : (shape : Shape) → Json → Except Mismatch shape.Value
  | .scalar kind, json => kind.accept json.found
  | .json, json => .ok (.ofJson json)
  | .optional inner, json => asOptional (fun json => inner.ofJson json) json
  | .list item, json => asList (fun json => item.ofJson json) json
  | .record label extra fields, json =>
    asRecord label (fun items => fields.ofItems (fields.counted label) 0 items)
      (fields.ofMembers extra fun name json => fields.putMember fields.names name json) json
  | .choice variants, json =>
    asChoice variants.names variants.ofName (fun name json => variants.ofCarried name json) json
  | .tagged label tag cases, json =>
    asTagged label tag cases.names (fun name content => cases.ofContent name content) json

/-- The values of the fields in order, and the items that are left. -/
def Fields.ofItems (expected : String) :
    (fields : Fields) → Nat → List Json → Except Mismatch (fields.Value × List Json)
  | .nil, _, items => .ok ((), items)
  | .required _ _ _, index, [] => .error (.invalidLength index expected)
  | .required _ shape rest, index, json :: items => do
    let value ← shape.ofJson json
    let (values, items) ← rest.ofItems expected (index + 1) items
    return ((value, values), items)
  | .optional _ _ rest, index, [] => do
    let (values, items) ← rest.ofItems expected (index + 1) []
    return ((none, values), items)
  | .optional _ shape rest, index, json :: items => do
    let value ← shape.ofJson json
    let (values, items) ← rest.ofItems expected (index + 1) items
    return ((some value, values), items)

/-- Put the value of a member into its slot, which has to be empty. -/
def Fields.putMember (known : List String) (name : String) (json : Json) :
    (fields : Fields) → fields.Slots → Except Mismatch fields.Slots
  | .nil, () => .error (.unknownField name known)
  | .required field shape rest, (slot, slots) | .optional field shape rest, (slot, slots) =>
    if field = name then
      match slot with
      | some _ => .error (.duplicateField name)
      | none => (shape.ofJson json).map fun value => (some value, slots)
    else (rest.putMember known name json slots).map fun slots => (slot, slots)

def Variants.ofCarried :
    (variants : Variants) → String → Json → Except Mismatch variants.Value
  | .nil, name, _ => .error (.unknownVariant name [])
  | .bare known rest, name, json =>
    if known = name then (Scalar.nothing.accept json.found).map .inl
    else (rest.ofCarried name json).map .inr
  | .carrying known way shape rest, name, json =>
    if known = name then (way.accept (fun json => shape.ofJson json) json).map .inl
    else (rest.ofCarried name json).map .inr

def Cases.ofContent : (cases : Cases) → String → Content → Except Mismatch cases.Value
  | .nil, name, _ => .error (.unknownVariant name [])
  | .cons known label fields rest, name, content =>
    if known = name then
      (content.accept (fun items => fields.ofItems (fields.counted label) 0 items)
        (fields.ofMembers .refused fun name json =>
          fields.putMember fields.names name json)).map .inl
    else (rest.ofContent name content).map .inr

end

end GeoQuery
