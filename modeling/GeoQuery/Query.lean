import GeoQuery.Fence
import GeoQuery.Key
import GeoQuery.Search
import GeoQuery.Write

namespace GeoQuery

inductive Query
  | search (query : SearchQuery)
  | geofence (query : FenceQuery)
  | set (query : WriteQuery)
  | key (query : KeyQuery)
deriving BEq

namespace Query

abbrev shape : Shape :=
  .choice <|
    .carrying "search" .value SearchQuery.shape <|
    .carrying "geofence" .value FenceQuery.shape <|
    .carrying "set" .value WriteQuery.shape <|
    .carrying "key" .value KeyQuery.shape .nil

def ofValue : shape.Value → Query
  | .inl query => .search (.ofValue query)
  | .inr (.inl query) => .geofence (.ofValue query)
  | .inr (.inr (.inl query)) => .set (.ofValue query)
  | .inr (.inr (.inr (.inl query))) => .key (.ofValue query)

def toValue : Query → shape.Value
  | .search query => .inl query.toValue
  | .geofence query => .inr (.inl query.toValue)
  | .set query => .inr (.inr (.inl query.toValue))
  | .key query => .inr (.inr (.inr (.inl query.toValue)))

def ofJsonText (text : String) : Except Error Query :=
  match shape.ofText text with
  | .ok value => .ok (ofValue value)
  | .error reason => .error (.json reason)

def ofJson (json : Json) : Except Json.Mismatch Query := (shape.ofJson json).map ofValue

def toJson (q : Query) : Json := shape.toJson q.toValue

def compile : Query → Except Error Command
  | .search query => query.compile
  | .geofence query => query.compile
  | .set query => query.compile
  | .key query => query.compile

end Query

end GeoQuery
