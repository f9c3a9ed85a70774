import GeoQuery.Json.Fault

namespace GeoQuery

inductive Error
  /-- A number of this clause is a NaN or an infinity and has no token. -/
  | nonFinite (clause : String) (value : Binary64)
  | json (reason : Json.Error)

def Error.message : Error → String
  | .nonFinite clause value =>
    clause ++ ": non-finite value " ++ value.display ++ " cannot be encoded"
  | .json reason => "JSON error: " ++ reason.message

end GeoQuery
