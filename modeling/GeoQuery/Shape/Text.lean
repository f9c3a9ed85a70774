import GeoQuery.Json.Reader
import GeoQuery.Json.Skip
import GeoQuery.Shape.Tree

/-!
Reading a value of a shape from a text. Members are taken up one at a time, so a mismatch is
reported before anything is known of the text behind it. Only tagged records are read to their end
first, because the tag may stand behind the fields that depend on it.
-/

namespace GeoQuery

open Json

/-- A scalar, placed behind itself if it is not of the kind. -/
def Scalar.read (kind : Scalar) : Reader kind.Value := fun text =>
  match scanFound text with
  | .error fault => .error fault
  | .ok (found, rest) =>
    match kind.accept found with
    | .ok value => .ok (value, rest)
    | .error mismatch => .error (.mismatch rest mismatch)

def readName (known : List String) : Reader String := fun text =>
  match scanFound text with
  | .error fault => .error fault
  | .ok (found, rest) =>
    match acceptName known found with
    | .ok name => .ok (name, rest)
    | .error mismatch => .error (.mismatch rest mismatch)

/-- What is left of a text if a value in it is taken to be read, loosely. -/
def looseIn {α : Type} (result : Except Mismatch α) (rest : List Char) :
    Except Fault (α × List Char) :=
  match result with
  | .ok value => .ok (value, rest)
  | .error mismatch => .error (.loose mismatch rest)

/-- Open a bracket, if the depth permits. -/
def descend {α : Type} (inside : Nat → Reader α) (depth : Nat) : Reader α := fun text =>
  match depth with
  | 0 => .error (.looking text .tooDeep)
  | depth + 1 => inside depth text.tail

/-- The tag of a tagged record and its other fields as they are written. -/
structure Opened where
  name : Option String
  others : List (String × Json)

/-- Take up a member of a tagged record: the tag is read as a name, any other member as it is. -/
def Opened.readMember (tag : String) (known : List String) (depth : Nat) (key : String)
    (opened : Opened) : Reader Opened := fun text =>
  if key = tag then
    match opened.name with
    | some _ => .error (.loose (.duplicateField tag) text)
    | none => do
      let (name, rest) ← readName known (← scanColon text)
      return (⟨some name, opened.others⟩, rest)
  else do
    let (value, rest) ← Json.read depth (← scanColon text)
    return (⟨opened.name, (key, value) :: opened.others⟩, rest)

/-- The tag and the fields of a tagged record written as an object. -/
def readTaggedObject (tag : String) (known : List String) (depth : Nat) :
    Reader (String × Content) := fun text => do
  let (opened, rest) ← readMembers (Opened.readMember tag known depth) ⟨none, []⟩ text
  match opened.name with
  | some name => return ((name, .members opened.others.reverse), rest)
  | none => throw (.loose (.missingField tag) rest)

/-- The tag and the fields of a tagged record written as an array. -/
def readTaggedArray (tag : String) (known : List String) (depth : Nat) :
    Reader (String × Content) := fun text => do
  match ← nextItem true text with
  | (false, rest) => throw (.loose (.missingField tag) rest)
  | (true, rest) =>
    let (name, rest) ← readName known rest
    let (items, rest) ← readItems false (Json.read depth) rest
    return ((name, .items items), rest)

def readVariantName (known : List String) : Reader String := fun text =>
  match skipBlanks text with
  | [] => .error (.atEnd .object)
  | '"' :: rest => readName known ('"' :: rest)
  | '}' :: rest => .error (.looking ('}' :: rest) .expectedValue)
  | rest => .error (.looking rest .nameNotString)

def endVariant (text : List Char) : Except Fault (List Char) :=
  match skipBlanks text with
  | [] => .error (.atEnd .object)
  | '}' :: rest => .ok rest
  | rest => .error (.before rest (.malformed .expectedValue))

mutual

/-- Read a value of a shape; `depth` more brackets may be opened. -/
def Shape.read : (shape : Shape) → Nat → Reader shape.Value
  | .scalar kind, _, text => kind.read text
  | .json, depth, text => (Json.read depth text).map fun (json, rest) => (.ofJson json, rest)
  | .optional inner, depth, text =>
    match skipBlanks text with
    | 'n' :: rest => (scanKeyword ['u', 'l', 'l'] rest).map fun rest => (none, rest)
    | rest => (inner.read depth rest).map fun (value, rest) => (some value, rest)
  | .list item, depth, text => do
    match ← scanFound text with
    | (.array, rest) =>
      descend (fun depth => withinArray (readItems true fun text => item.read depth text)) depth rest
    | (found, rest) => throw (.mismatch rest (.invalidType found "a sequence"))
  | .record label extra fields, depth, text => do
    match ← scanFound text with
    | (.array, rest) =>
      descend (fun depth => withinArray fun text =>
        fields.readItems (fields.counted label) depth true 0 text) depth rest
    | (.object, rest) =>
      descend (fun depth => withinObject fun text => do
        let (slots, rest) ← readMembers (fun name slots text =>
          if extra = .ignored ∧ !fields.names.contains name then do
            return (slots, ← skip (← scanColon text))
          else fields.readMember fields.names depth name slots text) fields.emptySlots text
        looseIn (fields.ofSlots slots) rest) depth rest
    | (found, rest) => throw (.mismatch rest (.invalidType found label))
  | .choice variants, depth, text =>
    match skipBlanks text with
    | [] => .error (.atEnd .value)
    | '"' :: rest => do
      let (name, rest) ← readName variants.names ('"' :: rest)
      looseIn (variants.ofName name) rest
    | '{' :: rest =>
      descend (fun depth text => do
        let (name, rest) ← readVariantName variants.names text
        let (value, rest) ← variants.readCarried depth name (← scanColon rest)
        return (value, ← endVariant rest)) depth ('{' :: rest)
    | rest => .error (.looking rest .expectedValue)
  | .tagged label tag cases, depth, text => do
    let ((name, content), rest) ← match ← scanFound text with
      | (.array, rest) =>
        descend (fun depth => withinArray (readTaggedArray tag cases.names depth)) depth rest
      | (.object, rest) =>
        descend (fun depth => withinObject (readTaggedObject tag cases.names depth)) depth rest
      | (found, rest) => throw (.mismatch rest (.invalidType found label))
    looseIn (cases.ofContent name content) rest

/-- The items of an array as the fields in order. -/
def Fields.readItems (expected : String) :
    (fields : Fields) → Nat → Bool → Nat → Reader fields.Value
  | .nil, _, _, _, text => .ok ((), text)
  | .required _ shape rest, depth, first, index, text => do
    match ← nextItem first text with
    | (false, text) => throw (.loose (.invalidLength index expected) text)
    | (true, text) =>
      let (value, text) ← shape.read depth text
      let (values, text) ← rest.readItems expected depth false (index + 1) text
      return ((value, values), text)
  | .optional _ shape rest, depth, first, index, text => do
    match ← nextItem first text with
    | (false, text) =>
      let (values, text) ← rest.readItems expected depth first (index + 1) text
      return ((none, values), text)
    | (true, text) =>
      let (value, text) ← shape.read depth text
      let (values, text) ← rest.readItems expected depth false (index + 1) text
      return ((some value, values), text)

/-- Read a member behind its name into its slot, which has to be empty. -/
def Fields.readMember (known : List String) :
    (fields : Fields) → Nat → String → fields.Slots → Reader fields.Slots
  | .nil, _, name, (), text => .error (.loose (.unknownField name known) text)
  | .required field shape rest, depth, name, (slot, slots), text
  | .optional field shape rest, depth, name, (slot, slots), text =>
    if field = name then
      match slot with
      | some _ => .error (.loose (.duplicateField name) text)
      | none => do
        let (value, text) ← shape.read depth (← scanColon text)
        return ((some value, slots), text)
    else do
      let (slots, text) ← rest.readMember known depth name slots text
      return ((slot, slots), text)

def Variants.readCarried : (variants : Variants) → Nat → String → Reader variants.Value
  | .nil, _, name, text => .error (.loose (.unknownVariant name []) text)
  | .bare known rest, depth, name, text =>
    if known = name then (Scalar.nothing.read text).map fun (value, text) => (.inl value, text)
    else (rest.readCarried depth name text).map fun (value, text) => (.inr value, text)
  | .carrying known _ shape rest, depth, name, text =>
    if known = name then (shape.read depth text).map fun (value, text) => (.inl value, text)
    else (rest.readCarried depth name text).map fun (value, text) => (.inr value, text)

end

def Shape.ofText (shape : Shape) (text : String) : Except Json.Error shape.Value :=
  readWhole (shape.read maxDepth) text

end GeoQuery
