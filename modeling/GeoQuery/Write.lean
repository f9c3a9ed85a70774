import GeoQuery.Clause.Payload
import GeoQuery.Command

namespace GeoQuery

/-- Whether the object must not exist yet, or has to. -/
inductive Condition
  | absent
  | present
deriving DecidableEq

namespace Condition

abbrev shape : Shape := .choice <| .bare "nx" <| .bare "xx" .nil

def ofValue : shape.Value → Condition
  | .inl () => .absent
  | .inr (.inl ()) => .present

def toValue : Condition → shape.Value
  | .absent => .inl ()
  | .present => .inr (.inl ())

def token : Condition → String
  | .absent => "NX"
  | .present => "XX"

end Condition

structure FieldValue where
  name : String
  value : Binary64
deriving BEq

namespace FieldValue

abbrev shape : Shape :=
  .record "struct Field" .refused <|
    .required "name" (.scalar .text) <|
    .required "value" (.scalar .number) .nil

def ofValue : shape.Value → FieldValue
  | (name, value, ()) => ⟨name, value⟩

def toValue (f : FieldValue) : shape.Value := (f.name, f.value, ())

def arguments (f : FieldValue) : List Argument :=
  [.word "FIELD", .word f.name, .number "FIELD" f.value]

end FieldValue

structure WriteQuery where
  key : String
  id : String
  expiration : Option UInt64 := none
  fields : List FieldValue := []
  condition : Option Condition := none
  payload : Option Payload := none
deriving BEq

inductive WriteClause
  | point (lat lon : Binary64)
  | pointZ (lat lon z : Binary64)
  | bounds (minLat minLon maxLat maxLon : Binary64)
  | hash (geohash : String)
  | object (geometry : Json.Value)
  | string (value : String)
  | payload (payload : Payload)
  | field (name : String) (value : Binary64)
  | expiration (seconds : UInt64)
  | condition (condition : Condition)

namespace WriteQuery

abbrev shape : Shape :=
  .record "struct SetQuery" .refused <|
    .required "key" (.scalar .text) <|
    .required "id" (.scalar .text) <|
    .optional "ex" (.optional (.scalar .word64)) <|
    .optional "fields" (.list FieldValue.shape) <|
    .optional "condition" (.optional Condition.shape) <|
    .optional "payload" (.optional Payload.shape) .nil

def ofValue : shape.Value → WriteQuery
  | (key, id, expiration, fields, condition, payload, ()) =>
    { key, id
      expiration := expiration.join
      fields := (fields.getD []).map FieldValue.ofValue
      condition := condition.join.map Condition.ofValue
      payload := payload.join.map Payload.ofValue }

def toValue (q : WriteQuery) : shape.Value :=
  (q.key, q.id, q.expiration.map some, listValue FieldValue.toValue q.fields,
    q.condition.map (some ·.toValue), q.payload.map (some ·.toValue), ())

def setPayload (q : WriteQuery) (payload : Payload) : WriteQuery :=
  { q with payload := some payload }

/-- The write after a call. All calls that name what is stored share one slot. -/
def add (q : WriteQuery) : WriteClause → WriteQuery
  | .point lat lon => q.setPayload (.point lat lon none)
  | .pointZ lat lon z => q.setPayload (.point lat lon (some z))
  | .bounds minLat minLon maxLat maxLon => q.setPayload (.bounds minLat minLon maxLat maxLon)
  | .hash geohash => q.setPayload (.hash geohash)
  | .object geometry => q.setPayload (.object geometry)
  | .string value => q.setPayload (.string value)
  | .payload payload => q.setPayload payload
  | .field name value => { q with fields := q.fields ++ [⟨name, value⟩] }
  | .expiration seconds => { q with expiration := some seconds }
  | .condition condition => { q with condition := some condition }

/-- What a call records: the slot that it sets, if that holds something already. A condition is
recorded by its new value. -/
def event? (q : WriteQuery) : WriteClause → Option Event
  | .point .. | .pointZ .. | .bounds .. | .hash _ | .object _ | .string _ | .payload _ =>
    Event.overwriteIf q.payload.isSome "payload"
  | .field .. => none
  | .expiration _ => Event.overwriteIf q.expiration.isSome "EX"
  | .condition condition => Event.overwriteIf q.condition.isSome condition.token

/-- Key and id, expiration, fields, condition, and last what is stored. -/
def arguments (q : WriteQuery) : List Argument :=
  .word q.key :: .word q.id ::
    (q.expiration.elim [] fun n => [.word "EX", .nat n.toNat]) ++
    q.fields.flatMap FieldValue.arguments ++
    (q.condition.elim [] fun condition => [.word condition.token]) ++
    q.payload.elim [] Payload.arguments

def compilation (q : WriteQuery) : Compilation := .ofArguments "SET" q.arguments

def compile (q : WriteQuery) : Except Error Command := q.compilation.result

end WriteQuery

end GeoQuery
