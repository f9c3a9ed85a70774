import GeoQuery.Clause.Area
import GeoQuery.Clause.Filters
import GeoQuery.Clause.OutputFormat
import GeoQuery.Command

/-!
Searches: a spatial predicate and its clauses. Clauses may be given in any order; each singular one
has a slot that the last call decides, and the command has them in one fixed order.
-/

namespace GeoQuery

inductive SearchPredicate
  /-- Objects within a radius of a point. -/
  | nearby (key : String) (lat lon radius : Binary64)
  | intersects (key : String)
  | within (key : String)
deriving BEq

namespace SearchPredicate

abbrev shape : Shape :=
  .tagged "internally tagged enum SearchPredicate" "kind" <|
    .cons "nearby" "struct variant SearchPredicate::Nearby"
      (.required "key" (.scalar .text) <| .required "lat" (.scalar .number) <|
        .required "lon" (.scalar .number) <| .required "radius" (.scalar .number) .nil) <|
    .cons "intersects" "struct variant SearchPredicate::Intersects"
      (.required "key" (.scalar .text) .nil) <|
    .cons "within" "struct variant SearchPredicate::Within"
      (.required "key" (.scalar .text) .nil) .nil

def ofValue : shape.Value → SearchPredicate
  | .inl (key, lat, lon, radius, ()) => .nearby key lat lon radius
  | .inr (.inl (key, ())) => .intersects key
  | .inr (.inr (.inl (key, ()))) => .within key

def toValue : SearchPredicate → shape.Value
  | .nearby key lat lon radius => .inl (key, lat, lon, radius, ())
  | .intersects key => .inr (.inl (key, ()))
  | .within key => .inr (.inr (.inl (key, ())))

def name : SearchPredicate → String
  | .nearby .. => "NEARBY"
  | .intersects _ => "INTERSECTS"
  | .within _ => "WITHIN"

def key : SearchPredicate → String
  | .nearby key .. | .intersects key | .within key => key

def arguments : SearchPredicate → List Argument
  | .nearby _ lat lon radius => Argument.point lat lon (some radius)
  | .intersects _ | .within _ => []

end SearchPredicate

structure SearchQuery where
  predicate : SearchPredicate
  filters : Filters := {}
  cursor : Option UInt64 := none
  limit : Option UInt64 := none
  noFields : Bool := false
  format : Option OutputFormat := none
  area : Option Area := none
deriving BEq

inductive SearchClause
  | whereRange (field : String) (min max : Binary64)
  | whereIn (field : String) (values : List Binary64)
  | matching (pattern : String)
  | cursor (start : UInt64)
  | limit (count : UInt64)
  | noFields
  | format (format : OutputFormat)
  | tile (x y : UInt64) (z : UInt32)
  | bounds (minLat minLon maxLat maxLon : Binary64)
  | circle (lat lon meters : Binary64)
  | get (key id : String)
  | hash (geohash : String)
  | quadkey (digits : String)
  | object (geometry : Json.Value)
  | area (area : Area)

namespace SearchQuery

abbrev shape : Shape :=
  .record "struct SearchQueryFields" .refused <|
    .required "predicate" SearchPredicate.shape <|
    .optional "where" (.list RangeFilter.shape) <|
    .optional "wherein" (.list MembershipFilter.shape) <|
    .optional "match" (.optional (.scalar .text)) <|
    .optional "cursor" (.optional (.scalar .word64)) <|
    .optional "limit" (.optional (.scalar .word64)) <|
    .optional "no_fields" (.scalar .flag) <|
    .optional "format" (.optional OutputFormat.shape) <|
    .optional "area" (.optional Area.shape) .nil

def ofValue : shape.Value → SearchQuery
  | (predicate, ranges, memberships, pattern, cursor, limit, noFields, format, area, ()) =>
    { predicate := .ofValue predicate
      filters :=
        { ranges := (ranges.getD []).map RangeFilter.ofValue
          memberships := (memberships.getD []).map MembershipFilter.ofValue
          pattern := pattern.join }
      cursor := cursor.join
      limit := limit.join
      noFields := noFields.getD false
      format := format.join.map OutputFormat.ofValue
      area := area.join.map Area.ofValue }

def toValue (q : SearchQuery) : shape.Value :=
  (q.predicate.toValue, listValue RangeFilter.toValue q.filters.ranges,
    listValue MembershipFilter.toValue q.filters.memberships, q.filters.pattern.map some,
    q.cursor.map some, q.limit.map some, flagValue q.noFields,
    q.format.map (some ·.toValue), q.area.map (some ·.toValue), ())

def setArea (q : SearchQuery) (area : Area) : SearchQuery := { q with area := some area }

/-- The search after a call. All calls that name an area share one slot. -/
def add (q : SearchQuery) : SearchClause → SearchQuery
  | .whereRange field min max => { q with filters := q.filters.addRange ⟨field, min, max⟩ }
  | .whereIn field values => { q with filters := q.filters.addMembership ⟨field, values⟩ }
  | .matching pattern => { q with filters := q.filters.setPattern pattern }
  | .cursor start => { q with cursor := some start }
  | .limit count => { q with limit := some count }
  | .noFields => { q with noFields := true }
  | .format format => { q with format := some format }
  | .tile x y z => q.setArea (.tile x y z)
  | .bounds minLat minLon maxLat maxLon => q.setArea (.bounds minLat minLon maxLat maxLon)
  | .circle lat lon meters => q.setArea (.circle lat lon meters)
  | .get key id => q.setArea (.get key id)
  | .hash geohash => q.setArea (.hash geohash)
  | .quadkey digits => q.setArea (.quadkey digits)
  | .object geometry => q.setArea (.object geometry)
  | .area area => q.setArea area

/-- What a call records: the slot that it sets, if that holds something already. -/
def event? (q : SearchQuery) : SearchClause → Option Event
  | .whereRange .. | .whereIn .. => none
  | .matching _ => Event.overwriteIf q.filters.pattern.isSome "MATCH"
  | .cursor _ => Event.overwriteIf q.cursor.isSome "CURSOR"
  | .limit _ => Event.overwriteIf q.limit.isSome "LIMIT"
  | .noFields => Event.overwriteIf q.noFields "NOFIELDS"
  | .format _ => Event.overwriteIf q.format.isSome "format"
  | .tile .. | .bounds .. | .circle .. | .get .. | .hash _ | .quadkey _ | .object _ | .area _ =>
    Event.overwriteIf q.area.isSome "area"

/-- Key, filters, cursor, limit, fields, format, and last the area or else the predicate's point. -/
def arguments (q : SearchQuery) : List Argument :=
  .word q.predicate.key :: q.filters.arguments ++
    (q.cursor.elim [] fun n => [.word "CURSOR", .nat n.toNat]) ++
    (q.limit.elim [] fun n => [.word "LIMIT", .nat n.toNat]) ++
    (if q.noFields then [.word "NOFIELDS"] else []) ++
    q.format.elim [] OutputFormat.arguments ++
    q.area.elim q.predicate.arguments Area.arguments

def compilation (q : SearchQuery) : Compilation := .ofArguments q.predicate.name q.arguments

def compile (q : SearchQuery) : Except Error Command := q.compilation.result

end SearchQuery

end GeoQuery
