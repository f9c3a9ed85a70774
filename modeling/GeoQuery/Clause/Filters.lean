import GeoQuery.Argument
import GeoQuery.Shape.Write

/-!
The filters of a search or a fence: ranges and memberships in the order they were added, and one
pattern for ids.
-/

namespace GeoQuery

structure RangeFilter where
  field : String
  min : Binary64
  max : Binary64
deriving BEq

namespace RangeFilter

abbrev shape : Shape :=
  .record "struct RangeFilter" .refused <|
    .required "field" (.scalar .text) <|
    .required "min" (.scalar .number) <|
    .required "max" (.scalar .number) .nil

def ofValue : shape.Value → RangeFilter
  | (field, min, max, ()) => ⟨field, min, max⟩

def toValue (f : RangeFilter) : shape.Value := (f.field, f.min, f.max, ())

def arguments (f : RangeFilter) : List Argument :=
  .word "WHERE" :: .word f.field :: Argument.numbers "WHERE" [f.min, f.max]

end RangeFilter

structure MembershipFilter where
  field : String
  values : List Binary64
deriving BEq

namespace MembershipFilter

abbrev shape : Shape :=
  .record "struct MembershipFilter" .refused <|
    .required "field" (.scalar .text) <|
    .required "values" (.list (.scalar .number)) .nil

def ofValue : shape.Value → MembershipFilter
  | (field, values, ()) => ⟨field, values⟩

def toValue (f : MembershipFilter) : shape.Value := (f.field, f.values, ())

def arguments (f : MembershipFilter) : List Argument :=
  .word "WHEREIN" :: .word f.field :: Argument.counted "WHEREIN" f.values

end MembershipFilter

structure Filters where
  ranges : List RangeFilter := []
  memberships : List MembershipFilter := []
  pattern : Option String := none
deriving BEq

namespace Filters

def addRange (f : Filters) (range : RangeFilter) : Filters :=
  { f with ranges := f.ranges ++ [range] }

def addMembership (f : Filters) (membership : MembershipFilter) : Filters :=
  { f with memberships := f.memberships ++ [membership] }

def setPattern (f : Filters) (pattern : String) : Filters := { f with pattern := some pattern }

def arguments (f : Filters) : List Argument :=
  f.ranges.flatMap RangeFilter.arguments ++ f.memberships.flatMap MembershipFilter.arguments ++
    f.pattern.elim [] fun pattern => [.word "MATCH", .word pattern]

end Filters

end GeoQuery
