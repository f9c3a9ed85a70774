import GeoQuery.Json.Scan

/-!
Arrays and objects as brackets around a row of items or members. The rows are folded with a step
that reads one item, or one member behind its name; every round of a fold reads a character, so the
length of the text bounds the rounds.
-/

namespace GeoQuery.Json

/-- A reader takes its value from the front of a text and gives the rest. -/
abbrev Reader (α : Type) := List Char → Except Fault (α × List Char)

/-- Go to the next item of an array, or to its closing bracket: whether there is an item, and the
text that begins with it or with the bracket. -/
def nextItem (first : Bool) (text : List Char) : Except Fault (Bool × List Char) :=
  match skipBlanks text with
  | [] => .error (.atEnd .array)
  | ']' :: rest => .ok (false, ']' :: rest)
  | c :: rest =>
    if first then .ok (true, c :: rest)
    else if c = ',' then
      match skipBlanks rest with
      | [] => .error (.atEnd .value)
      | ']' :: rest => .error (.looking (']' :: rest) .trailingComma)
      | rest => .ok (true, rest)
    else .error (.looking (c :: rest) .expectedCommaOrBracket)

def scanName (text : List Char) : Except Fault (Option String × List Char) :=
  (scanString [] text).map fun (name, rest) => (some name, rest)

/-- Go to the next member of an object and read its name, or go to the closing brace. -/
def nextMember (first : Bool) (text : List Char) : Except Fault (Option String × List Char) :=
  match skipBlanks text with
  | [] => .error (.atEnd .object)
  | '}' :: rest => .ok (none, '}' :: rest)
  | c :: rest =>
    if first then
      if c = '"' then scanName rest else .error (.looking (c :: rest) .nameNotString)
    else if c = ',' then
      match skipBlanks rest with
      | [] => .error (.atEnd .value)
      | '}' :: rest => .error (.looking ('}' :: rest) .trailingComma)
      | '"' :: rest => scanName rest
      | c :: rest => .error (.looking (c :: rest) .nameNotString)
    else .error (.looking (c :: rest) .expectedCommaOrBrace)

def scanColon (text : List Char) : Except Fault (List Char) :=
  match skipBlanks text with
  | [] => .error (.atEnd .object)
  | ':' :: rest => .ok rest
  | c :: rest => .error (.looking (c :: rest) .expectedColon)

def foldItems {σ : Type} (step : σ → Reader σ) : Nat → Bool → σ → Reader σ
  | 0, _, _, _ => .error (.atEnd .array)
  | rounds + 1, first, state, text =>
    match nextItem first text with
    | .error fault => .error fault
    | .ok (false, rest) => .ok (state, rest)
    | .ok (true, rest) =>
      match step state rest with
      | .error fault => .error fault
      | .ok (state, rest) => foldItems step rounds false state rest

def foldMembers {σ : Type} (step : String → σ → Reader σ) : Nat → Bool → σ → Reader σ
  | 0, _, _, _ => .error (.atEnd .object)
  | rounds + 1, first, state, text =>
    match nextMember first text with
    | .error fault => .error fault
    | .ok (none, rest) => .ok (state, rest)
    | .ok (some name, rest) =>
      match step name state rest with
      | .error fault => .error fault
      | .ok (state, rest) => foldMembers step rounds false state rest

def endArray (text : List Char) : Except Fault (List Char) :=
  match skipBlanks text with
  | [] => .error (.atEnd .array)
  | ']' :: rest => .ok rest
  | ',' :: rest =>
    match skipBlanks rest with
    | ']' :: rest => .error (.looking (']' :: rest) .trailingComma)
    | rest => .error (.looking rest .trailingCharacters)
  | c :: rest => .error (.looking (c :: rest) .trailingCharacters)

def endObject (text : List Char) : Except Fault (List Char) :=
  match skipBlanks text with
  | [] => .error (.atEnd .object)
  | '}' :: rest => .ok rest
  | ',' :: rest => .error (.looking (',' :: rest) .trailingComma)
  | c :: rest => .error (.looking (c :: rest) .trailingCharacters)

def leaveArray (text : List Char) : List Char :=
  match skipBlanks text with
  | ']' :: rest => rest
  | ',' :: rest => skipBlanks rest
  | rest => rest

def leaveObject (text : List Char) : List Char :=
  match skipBlanks text with
  | '}' :: rest => rest
  | rest => rest

/-- Read what stands in brackets and then the closing one. A loose fault from inside is placed
behind the brackets. -/
def within {α : Type} (finish : List Char → Except Fault (List Char))
    (leave : List Char → List Char) (inside : Reader α) : Reader α := fun text =>
  match inside text with
  | .error fault => .error (fault.settle leave)
  | .ok (value, rest) => (finish rest).map fun rest => (value, rest)

def withinArray {α : Type} (inside : Reader α) : Reader α := within endArray leaveArray inside

def withinObject {α : Type} (inside : Reader α) : Reader α := within endObject leaveObject inside

def readItems {α : Type} (first : Bool) (item : Reader α) : Reader (List α) := fun text =>
  (foldItems (fun items text => (item text).map fun (a, rest) => (a :: items, rest))
    (text.length + 1) first [] text).map fun (items, rest) => (items.reverse, rest)

/-- All members of an object behind its opening brace, folded from an initial state. -/
def readMembers {σ : Type} (step : String → σ → Reader σ) (state : σ) : Reader σ := fun text =>
  foldMembers step (text.length + 1) true state text

end GeoQuery.Json
