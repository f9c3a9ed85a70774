import GeoQuery.Json.Numeral

/-!
The smallest parts of a JSON text: blanks, strings, keywords, and values without parts. Each
function takes a text and gives what it read and the rest.
-/

namespace GeoQuery.Json

def isBlank (c : Char) : Bool := c = ' ' || c = '\n' || c = '\t' || c = '\r'

def skipBlanks (text : List Char) : List Char := text.dropWhile isBlank

def scanKeyword : List Char → List Char → Except Fault (List Char)
  | [], text => .ok text
  | _ :: _, [] => .error (.atEnd .value)
  | k :: word, c :: text =>
    if c = k then scanKeyword word text else .error (.looking (c :: text) .expectedKeyword)

def hexValue? (c : Char) : Option Nat :=
  if c.isDigit then some (c.toNat - '0'.toNat)
  else if 'a' ≤ c ∧ c ≤ 'f' then some (c.toNat - 'a'.toNat + 10)
  else if 'A' ≤ c ∧ c ≤ 'F' then some (c.toNat - 'A'.toNat + 10)
  else none

def hexUnit? (a b c d : Char) : Option Nat := do
  return (((← hexValue? a) * 16 + (← hexValue? b)) * 16 + (← hexValue? c)) * 16 + (← hexValue? d)

def isHighSurrogate (unit : Nat) : Bool := 0xd800 ≤ unit && unit ≤ 0xdbff

def isLowSurrogate (unit : Nat) : Bool := 0xdc00 ≤ unit && unit ≤ 0xdfff

def pairChar (high low : Nat) : Char :=
  Char.ofNat ((high - 0xd800) * 0x400 + (low - 0xdc00) + 0x10000)

def letterEscape? (c : Char) : Option Char :=
  if c = '"' ∨ c = '\\' ∨ c = '/' then some c
  else if c = 'n' then some '\n'
  else if c = 't' then some '\t'
  else if c = 'r' then some '\r'
  else if c = 'b' then some '\x08'
  else if c = 'f' then some '\x0c'
  else none

/-- Fault of an escape whose four bytes behind the `u` are no number: they are read all the same if
they are there. -/
def brokenUnit (text : List Char) : Fault :=
  if byteCount text < 4 then .atEnd .string
  else .behind 4 text (.malformed .invalidEscape)

def unpaired : List Char → Fault
  | [] => .atEnd .string
  | '\\' :: [] => .atEnd .string
  | '\\' :: 'u' :: rest => brokenUnit rest
  | '\\' :: rest => .looking rest .unpairedEscape
  | rest => .looking rest .unpairedEscape

/-- A string behind its opening quote. The characters already read come last first. -/
def scanString (read : List Char) : List Char → Except Fault (String × List Char)
  | [] => .error (.atEnd .string)
  | '"' :: rest => .ok (String.ofList read.reverse, rest)
  | '\\' :: 'u' :: a :: b :: c :: d :: rest =>
    match hexUnit? a b c d with
    | none => .error (brokenUnit (a :: b :: c :: d :: rest))
    | some unit =>
      if isLowSurrogate unit then .error (.before rest (.malformed .loneSurrogate))
      else if isHighSurrogate unit then
        match rest with
        | '\\' :: 'u' :: a :: b :: c :: d :: rest =>
          match hexUnit? a b c d with
          | none => .error (brokenUnit (a :: b :: c :: d :: rest))
          | some low =>
            if isLowSurrogate low then scanString (pairChar unit low :: read) rest
            else .error (.before rest (.malformed .loneSurrogate))
        | rest => .error (unpaired rest)
      else scanString (Char.ofNat unit :: read) rest
  | '\\' :: 'u' :: rest => .error (brokenUnit rest)
  | '\\' :: c :: rest =>
    match letterEscape? c with
    | some e => scanString (e :: read) rest
    | none => .error (.looking (c :: rest) .invalidEscape)
  | '\\' :: [] => .error (.atEnd .string)
  | c :: rest =>
    if c < ' ' then .error (.looking (c :: rest) .controlCharacter)
    else scanString (c :: read) rest

/-- What a text goes on with: a value without parts is read, a bracket is only looked at. -/
def scanFound (text : List Char) : Except Fault (Found × List Char) :=
  match skipBlanks text with
  | [] => .error (.atEnd .value)
  | '[' :: rest => .ok (.array, '[' :: rest)
  | '{' :: rest => .ok (.object, '{' :: rest)
  | '"' :: rest => (scanString [] rest).map fun (s, rest) => (.leaf (.text s), rest)
  | 'n' :: rest => (scanKeyword ['u', 'l', 'l'] rest).map fun rest => (.leaf .null, rest)
  | 't' :: rest => (scanKeyword ['r', 'u', 'e'] rest).map fun rest => (.leaf (.boolean true), rest)
  | 'f' :: rest =>
    (scanKeyword ['a', 'l', 's', 'e'] rest).map fun rest => (.leaf (.boolean false), rest)
  | '-' :: rest => (Numeral.read true rest).map fun (n, rest) => (.leaf (.number n), rest)
  | c :: rest =>
    if c.isDigit then
      (Numeral.read false (c :: rest)).map fun (n, rest) => (.leaf (.number n), rest)
    else .error (.looking (c :: rest) .expectedValue)

end GeoQuery.Json
