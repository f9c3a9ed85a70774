import GeoQuery.Clause.Area

namespace GeoQuery

inductive Payload
  | point (lat lon : Binary64) (z : Option Binary64)
  | bounds (minLat minLon maxLat maxLon : Binary64)
  | hash (geohash : String)
  | object (geometry : Json.Value)
  | string (value : String)
deriving BEq

namespace Payload

abbrev pointShape : Shape :=
  .record "struct variant Payload::Point" .refused <|
    .required "lat" (.scalar .number) <|
    .required "lon" (.scalar .number) <|
    .optional "z" (.optional (.scalar .number)) .nil

abbrev shape : Shape :=
  .choice <|
    .carrying "point" .fields pointShape <|
    .carrying "bounds" .fields (Area.boundsShape "struct variant Payload::Bounds") <|
    .carrying "hash" .value (.scalar .text) <|
    .carrying "object" .value .json <|
    .carrying "string" .value (.scalar .text) .nil

def ofValue : shape.Value → Payload
  | .inl (lat, lon, z, ()) => .point lat lon z.join
  | .inr (.inl (minLat, minLon, maxLat, maxLon, ())) => .bounds minLat minLon maxLat maxLon
  | .inr (.inr (.inl geohash)) => .hash geohash
  | .inr (.inr (.inr (.inl geometry))) => .object geometry
  | .inr (.inr (.inr (.inr (.inl value)))) => .string value

def toValue : Payload → shape.Value
  | .point lat lon z => .inl (lat, lon, z.map some, ())
  | .bounds minLat minLon maxLat maxLon => .inr (.inl (minLat, minLon, maxLat, maxLon, ()))
  | .hash geohash => .inr (.inr (.inl geohash))
  | .object geometry => .inr (.inr (.inr (.inl geometry)))
  | .string value => .inr (.inr (.inr (.inr (.inl value))))

def arguments : Payload → List Argument
  | .point lat lon z => Argument.point lat lon z
  | .bounds minLat minLon maxLat maxLon => Argument.bounds minLat minLon maxLat maxLon
  | .hash geohash => [.word "HASH", .word geohash]
  | .object geometry => [.word "OBJECT", .word geometry.json.compact]
  | .string value => [.word "STRING", .word value]

end Payload

end GeoQuery
