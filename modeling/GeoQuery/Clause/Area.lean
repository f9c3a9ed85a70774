import GeoQuery.Argument
import GeoQuery.Json.Compact
import GeoQuery.Shape.Write

namespace GeoQuery

inductive Area
  | tile (x y : UInt64) (z : UInt32)
  | bounds (minLat minLon maxLat maxLon : Binary64)
  | circle (lat lon meters : Binary64)
  | get (key id : String)
  | hash (geohash : String)
  | quadkey (digits : String)
  | object (geometry : Json.Value)
deriving BEq

namespace Area

abbrev tileShape : Shape :=
  .record "struct variant Area::Tile" .refused <|
    .required "x" (.scalar .word64) <|
    .required "y" (.scalar .word64) <|
    .required "z" (.scalar .word32) .nil

abbrev boundsShape (label : String) : Shape :=
  .record label .refused <|
    .required "min_lat" (.scalar .number) <|
    .required "min_lon" (.scalar .number) <|
    .required "max_lat" (.scalar .number) <|
    .required "max_lon" (.scalar .number) .nil

abbrev circleShape : Shape :=
  .record "struct variant Area::Circle" .refused <|
    .required "lat" (.scalar .number) <|
    .required "lon" (.scalar .number) <|
    .required "meters" (.scalar .number) .nil

abbrev getShape : Shape :=
  .record "struct variant Area::Get" .refused <|
    .required "key" (.scalar .text) <|
    .required "id" (.scalar .text) .nil

abbrev shape : Shape :=
  .choice <|
    .carrying "tile" .fields tileShape <|
    .carrying "bounds" .fields (boundsShape "struct variant Area::Bounds") <|
    .carrying "circle" .fields circleShape <|
    .carrying "get" .fields getShape <|
    .carrying "hash" .value (.scalar .text) <|
    .carrying "quadkey" .value (.scalar .text) <|
    .carrying "object" .value .json .nil

def ofValue : shape.Value → Area
  | .inl (x, y, z, ()) => .tile x y z
  | .inr (.inl (minLat, minLon, maxLat, maxLon, ())) => .bounds minLat minLon maxLat maxLon
  | .inr (.inr (.inl (lat, lon, meters, ()))) => .circle lat lon meters
  | .inr (.inr (.inr (.inl (key, id, ())))) => .get key id
  | .inr (.inr (.inr (.inr (.inl geohash)))) => .hash geohash
  | .inr (.inr (.inr (.inr (.inr (.inl digits))))) => .quadkey digits
  | .inr (.inr (.inr (.inr (.inr (.inr (.inl geometry)))))) => .object geometry

def toValue : Area → shape.Value
  | .tile x y z => .inl (x, y, z, ())
  | .bounds minLat minLon maxLat maxLon => .inr (.inl (minLat, minLon, maxLat, maxLon, ()))
  | .circle lat lon meters => .inr (.inr (.inl (lat, lon, meters, ())))
  | .get key id => .inr (.inr (.inr (.inl (key, id, ()))))
  | .hash geohash => .inr (.inr (.inr (.inr (.inl geohash))))
  | .quadkey digits => .inr (.inr (.inr (.inr (.inr (.inl digits)))))
  | .object geometry => .inr (.inr (.inr (.inr (.inr (.inr (.inl geometry))))))

def arguments : Area → List Argument
  | .tile x y z => [.word "TILE", .nat x.toNat, .nat y.toNat, .nat z.toNat]
  | .bounds minLat minLon maxLat maxLon => Argument.bounds minLat minLon maxLat maxLon
  | .circle lat lon meters => .word "CIRCLE" :: Argument.numbers "CIRCLE" [lat, lon, meters]
  | .get key id => [.word "GET", .word key, .word id]
  | .hash geohash => [.word "HASH", .word geohash]
  | .quadkey digits => [.word "QUADKEY", .word digits]
  | .object geometry => [.word "OBJECT", .word geometry.json.compact]

end Area

end GeoQuery
