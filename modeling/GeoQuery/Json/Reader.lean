import GeoQuery.Json.Brackets

namespace GeoQuery.Json

def maxDepth : Nat := 127

/-- A value whose parts are read by `nested`; brackets are refused if there is no such reader. -/
def readWith (nested : Option (Reader Json)) : Reader Json := fun text =>
  match scanFound text with
  | .error fault => .error fault
  | .ok (.leaf l, rest) => .ok (.leaf l, rest)
  | .ok (.array, rest) =>
    match nested with
    | none => .error (.looking rest .tooDeep)
    | some item => (withinArray (readItems true item) rest.tail).map fun (items, rest) =>
        (.array items, rest)
  | .ok (.object, rest) =>
    match nested with
    | none => .error (.looking rest .tooDeep)
    | some value => (withinObject (readMembers (member value) []) rest.tail).map
        fun (members, rest) => (.object members.reverse, rest)
where
  /-- Add the member with this name, read behind it, to the members already read. -/
  member (value : Reader Json) (name : String) (members : List (String × Json)) :
      Reader (List (String × Json)) := fun text =>
    match scanColon text with
    | .error fault => .error fault
    | .ok rest => (value rest).map fun (v, rest) => ((name, v) :: members, rest)

/-- A value in which at most `depth` brackets are open at once, members as they are written. -/
def read : (depth : Nat) → Reader Json
  | 0 => readWith none
  | depth + 1 => readWith (some (read depth))

/-- A reader for a whole text: nothing but blanks may follow the value. -/
def readWhole {α : Type} (reader : Reader α) (text : String) : Except Error α :=
  match reader text.toList with
  | .error fault => .error (.ofFault text.toList fault)
  | .ok (value, rest) =>
    match skipBlanks rest with
    | [] => .ok value
    | rest => .error (.ofFault text.toList (.looking rest .trailingCharacters))

def ofText (text : String) : Except Error Json := (readWhole (read maxDepth) text).map collapse

end GeoQuery.Json
