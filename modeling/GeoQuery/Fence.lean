import GeoQuery.Clause.Filters
import GeoQuery.Clause.OutputFormat
import GeoQuery.Clause.Selection
import GeoQuery.Command

/-!
Fences: standing searches that report events. A fence has the clauses of a search except limit,
fields and area, and the events and writes it reacts to.
-/

namespace GeoQuery

inductive FencePredicate
  | nearby (key : String) (lat lon radius : Binary64)
  | intersects (key : String)
  | within (key : String)
  /-- Objects that come within a distance of the objects of another key. -/
  | roam (key target pattern : String) (meters : Binary64)
deriving BEq

namespace FencePredicate

abbrev shape : Shape :=
  .tagged "internally tagged enum FencePredicate" "kind" <|
    .cons "nearby" "struct variant FencePredicate::Nearby"
      (.required "key" (.scalar .text) <| .required "lat" (.scalar .number) <|
        .required "lon" (.scalar .number) <| .required "radius" (.scalar .number) .nil) <|
    .cons "intersects" "struct variant FencePredicate::Intersects"
      (.required "key" (.scalar .text) .nil) <|
    .cons "within" "struct variant FencePredicate::Within"
      (.required "key" (.scalar .text) .nil) <|
    .cons "roam" "struct variant FencePredicate::Roam"
      (.required "key" (.scalar .text) <| .required "target" (.scalar .text) <|
        .required "pattern" (.scalar .text) <| .required "meters" (.scalar .number) .nil) .nil

def ofValue : shape.Value → FencePredicate
  | .inl (key, lat, lon, radius, ()) => .nearby key lat lon radius
  | .inr (.inl (key, ())) => .intersects key
  | .inr (.inr (.inl (key, ()))) => .within key
  | .inr (.inr (.inr (.inl (key, target, pattern, meters, ())))) => .roam key target pattern meters

def toValue : FencePredicate → shape.Value
  | .nearby key lat lon radius => .inl (key, lat, lon, radius, ())
  | .intersects key => .inr (.inl (key, ()))
  | .within key => .inr (.inr (.inl (key, ())))
  | .roam key target pattern meters => .inr (.inr (.inr (.inl (key, target, pattern, meters, ()))))

/-- The name of the command. Roaming is a kind of nearness. -/
def name : FencePredicate → String
  | .nearby .. | .roam .. => "NEARBY"
  | .intersects _ => "INTERSECTS"
  | .within _ => "WITHIN"

def key : FencePredicate → String
  | .nearby key .. | .intersects key | .within key | .roam key .. => key

/-- What a roaming fence roams around. -/
def roaming : FencePredicate → List Argument
  | .roam _ target pattern meters =>
    [.word "ROAM", .word target, .word pattern, .number "ROAM" meters]
  | .nearby .. | .intersects _ | .within _ => []

def point : FencePredicate → List Argument
  | .nearby _ lat lon radius => Argument.point lat lon (some radius)
  | .intersects _ | .within _ | .roam .. => []

end FencePredicate

structure FenceQuery where
  predicate : FencePredicate
  clip : Bool := false
  distance : Bool := false
  filters : Filters := {}
  cursor : Option UInt64 := none
  events : Selection FenceEvent := .empty
  writes : Selection FenceWrite := .empty
  format : Option OutputFormat := none
deriving BEq

inductive FenceClause
  | whereRange (field : String) (min max : Binary64)
  | whereIn (field : String) (values : List Binary64)
  | matching (pattern : String)
  | cursor (start : UInt64)
  | format (format : OutputFormat)
  | clip
  | distance
  | events (events : List FenceEvent)
  | writes (writes : List FenceWrite)

namespace FenceQuery

abbrev shape : Shape :=
  .record "struct GeofenceQueryFields" .refused <|
    .required "predicate" FencePredicate.shape <|
    .optional "clip" (.scalar .flag) <|
    .optional "distance" (.scalar .flag) <|
    .optional "where" (.list RangeFilter.shape) <|
    .optional "wherein" (.list MembershipFilter.shape) <|
    .optional "match" (.optional (.scalar .text)) <|
    .optional "cursor" (.optional (.scalar .word64)) <|
    .optional "detect" (.list FenceEvent.shape) <|
    .optional "commands" (.list FenceWrite.shape) <|
    .optional "format" (.optional OutputFormat.shape) .nil

def ofValue : shape.Value → FenceQuery
  | (predicate, clip, distance, ranges, memberships, pattern, cursor, events, writes, format, ()) =>
    { predicate := .ofValue predicate
      clip := clip.getD false
      distance := distance.getD false
      filters :=
        { ranges := (ranges.getD []).map RangeFilter.ofValue
          memberships := (memberships.getD []).map MembershipFilter.ofValue
          pattern := pattern.join }
      cursor := cursor.join
      events := .ofList ((events.getD []).map FenceEvent.ofValue)
      writes := .ofList ((writes.getD []).map FenceWrite.ofValue)
      format := format.join.map OutputFormat.ofValue }

def toValue (q : FenceQuery) : shape.Value :=
  (q.predicate.toValue, flagValue q.clip, flagValue q.distance,
    listValue RangeFilter.toValue q.filters.ranges,
    listValue MembershipFilter.toValue q.filters.memberships, q.filters.pattern.map some,
    q.cursor.map some, listValue FenceEvent.toValue q.events.toList,
    listValue FenceWrite.toValue q.writes.toList, q.format.map (some ·.toValue), ())

/-- The fence after a call. Events and writes replace those given before. -/
def add (q : FenceQuery) : FenceClause → FenceQuery
  | .whereRange field min max => { q with filters := q.filters.addRange ⟨field, min, max⟩ }
  | .whereIn field values => { q with filters := q.filters.addMembership ⟨field, values⟩ }
  | .matching pattern => { q with filters := q.filters.setPattern pattern }
  | .cursor start => { q with cursor := some start }
  | .format format => { q with format := some format }
  | .clip => { q with clip := true }
  | .distance => { q with distance := true }
  | .events events => { q with events := .ofList events }
  | .writes writes => { q with writes := .ofList writes }

/-- What a call records: the slot that it sets, if that holds something already. -/
def event? (q : FenceQuery) : FenceClause → Option Event
  | .whereRange .. | .whereIn .. => none
  | .matching _ => Event.overwriteIf q.filters.pattern.isSome "MATCH"
  | .cursor _ => Event.overwriteIf q.cursor.isSome "CURSOR"
  | .format _ => Event.overwriteIf q.format.isSome "format"
  | .clip => Event.overwriteIf q.clip "CLIP"
  | .distance => Event.overwriteIf q.distance "DISTANCE"
  | .events _ => Event.overwriteIf (!q.events.isEmpty) "DETECT"
  | .writes _ => Event.overwriteIf (!q.writes.isEmpty) "COMMANDS"

/-- Key, flags, filters, cursor, the fence with its events and writes, the format or else what is
roamed around, and last the predicate's point. -/
def arguments (q : FenceQuery) : List Argument :=
  .word q.predicate.key :: (if q.clip then [.word "CLIP"] else []) ++
    (if q.distance then [.word "DISTANCE"] else []) ++ q.filters.arguments ++
    (q.cursor.elim [] fun n => [.word "CURSOR", .nat n.toNat]) ++
    .word "FENCE" :: q.events.arguments "DETECT" ++ q.writes.arguments "COMMANDS" ++
    q.format.elim q.predicate.roaming OutputFormat.arguments ++ q.predicate.point

def compilation (q : FenceQuery) : Compilation := .ofArguments q.predicate.name q.arguments

def compile (q : FenceQuery) : Except Error Command := q.compilation.result

end FenceQuery

end GeoQuery
