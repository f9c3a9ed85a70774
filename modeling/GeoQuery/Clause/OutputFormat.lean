import GeoQuery.Argument
import GeoQuery.Shape.Write

namespace GeoQuery

inductive OutputFormat
  | count
  | ids
  | objects
  | points
  | bounds
  /-- Geohashes of the given precision. -/
  | hashes (precision : UInt32)
deriving DecidableEq

namespace OutputFormat

abbrev shape : Shape :=
  .choice <| .bare "count" <| .bare "ids" <| .bare "objects" <| .bare "points" <| .bare "bounds" <|
    .carrying "hashes" .value (.scalar .word32) .nil

def ofValue : shape.Value → OutputFormat
  | .inl () => .count
  | .inr (.inl ()) => .ids
  | .inr (.inr (.inl ())) => .objects
  | .inr (.inr (.inr (.inl ()))) => .points
  | .inr (.inr (.inr (.inr (.inl ())))) => .bounds
  | .inr (.inr (.inr (.inr (.inr (.inl precision))))) => .hashes precision

def toValue : OutputFormat → shape.Value
  | .count => .inl ()
  | .ids => .inr (.inl ())
  | .objects => .inr (.inr (.inl ()))
  | .points => .inr (.inr (.inr (.inl ())))
  | .bounds => .inr (.inr (.inr (.inr (.inl ()))))
  | .hashes precision => .inr (.inr (.inr (.inr (.inr (.inl precision)))))

def arguments : OutputFormat → List Argument
  | .count => [.word "COUNT"]
  | .ids => [.word "IDS"]
  | .objects => [.word "OBJECTS"]
  | .points => [.word "POINTS"]
  | .bounds => [.word "BOUNDS"]
  | .hashes precision => [.word "HASHES", .nat precision.toNat]

end OutputFormat

end GeoQuery
