import GeoQuery.Decimal.Layout

namespace GeoQuery

namespace Finite64

def signed (x : Finite64) (digits : List Char) : String :=
  String.ofList (if x.negative then '-' :: digits else digits)

def display (x : Finite64) : String :=
  x.signed (if x.magnitude.isZero then ['0'] else (Decimal.shortest .up x.magnitude).plain)

/-- Shortest digits, recognisable as a fraction by a point or an exponent. -/
def json (x : Finite64) : String :=
  x.signed (if x.magnitude.isZero then ['0', '.', '0']
    else (Decimal.shortest .even x.magnitude).general)

end Finite64

def Binary64.display : Binary64 → String
  | .finite x => x.display
  | .infinite false => "inf"
  | .infinite true => "-inf"
  | .nan => "NaN"

end GeoQuery
