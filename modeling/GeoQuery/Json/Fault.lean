import GeoQuery.Json.Basic
import GeoQuery.Decimal.Written
import GeoQuery.Text.Quoted

/-!
What can be wrong with a JSON text or with the value it denotes, and where. Nothing here decides
that something is wrong; the readers do.
-/

namespace GeoQuery.Json

/-- What was being read when the text ended. -/
inductive Unfinished
  | string
  | value
  | array
  | object
deriving DecidableEq

/-- What makes a text no JSON text, whatever may follow. -/
inductive Malformation
  | expectedValue
  | expectedKeyword
  | expectedColon
  | expectedCommaOrBracket
  | expectedCommaOrBrace
  | nameNotString
  | trailingComma
  | trailingCharacters
  | controlCharacter
  | invalidEscape
  | unpairedEscape
  | loneSurrogate
  | invalidNumber
  | numberOutOfRange
  | tooDeep
deriving DecidableEq

inductive Found
  | leaf (l : Leaf)
  | array
  | object

def found : Json → Found
  | .leaf l => .leaf l
  | .array _ => .array
  | .object _ => .object

/-- How a well-formed value fails to be of the expected shape. -/
inductive Mismatch
  | invalidType (found : Found) (expected : String)
  | invalidValue (found : Found) (expected : String)
  | invalidLength (length : Nat) (expected : String)
  | missingField (name : String)
  | duplicateField (name : String)
  | unknownField (name : String) (known : List String)
  | unknownVariant (name : String) (known : List String)
  | bareVariant (expected : String)

inductive Cause
  | unfinished (within : Unfinished)
  | malformed (reason : Malformation)
  | mismatched (reason : Mismatch)

/-- The three classes of causes: no JSON text, the beginning of one, and one that does not fit. -/
inductive Category
  | malformed
  | unfinished
  | mismatched
deriving DecidableEq

def Cause.category : Cause → Category
  | .unfinished _ => .unfinished
  | .malformed _ => .malformed
  | .mismatched _ => .mismatched

namespace Unfinished

def message : Unfinished → String
  | .string => "EOF while parsing a string"
  | .value => "EOF while parsing a value"
  | .array => "EOF while parsing a list"
  | .object => "EOF while parsing an object"

end Unfinished

namespace Malformation

def message : Malformation → String
  | .expectedValue => "expected value"
  | .expectedKeyword => "expected ident"
  | .expectedColon => "expected `:`"
  | .expectedCommaOrBracket => "expected `,` or `]`"
  | .expectedCommaOrBrace => "expected `,` or `\x7d`"
  | .nameNotString => "key must be a string"
  | .trailingComma => "trailing comma"
  | .trailingCharacters => "trailing characters"
  | .controlCharacter => "control character (\\u0000-\\u001F) found while parsing a string"
  | .invalidEscape => "invalid escape"
  | .unpairedEscape => "unexpected end of hex escape"
  | .loneSurrogate => "lone leading surrogate in hex escape"
  | .invalidNumber => "invalid number"
  | .numberOutOfRange => "number out of range"
  | .tooDeep => "recursion limit exceeded"

end Malformation

def Leaf.message : Leaf → String
  | .null => "null"
  | .boolean b => "boolean `" ++ toString b ++ "`"
  | .number (.integer i) => "integer `" ++ toString i.val ++ "`"
  | .number (.fraction x) => "floating point `" ++ x.json ++ "`"
  | .text s => "string " ++ Text.quoted s

namespace Found

def message : Found → String
  | .leaf l => l.message
  | .array => "sequence"
  | .object => "map"

end Found

namespace Mismatch

def message : Mismatch → String
  | .invalidType found expected => "invalid type: " ++ found.message ++ ", expected " ++ expected
  | .invalidValue found expected => "invalid value: " ++ found.message ++ ", expected " ++ expected
  | .invalidLength length expected =>
    "invalid length " ++ toString length ++ ", expected " ++ expected
  | .missingField name => "missing field `" ++ name ++ "`"
  | .duplicateField name => "duplicate field `" ++ name ++ "`"
  | .unknownField name known =>
    "unknown field `" ++ name ++ "`, expected " ++ Text.alternatives known
  | .unknownVariant name known =>
    "unknown variant `" ++ name ++ "`, expected " ++ Text.alternatives known
  | .bareVariant expected => "invalid type: unit variant, expected " ++ expected

end Mismatch

def Cause.message : Cause → String
  | .unfinished within => within.message
  | .malformed reason => reason.message
  | .mismatched reason => reason.message

/-- A place in a text: lines count from one, and the column is the number of bytes on the line
before the place. -/
structure Position where
  line : Nat
  column : Nat
deriving DecidableEq

namespace Position

def start : Position := ⟨1, 0⟩

/-- The place this many bytes further in a text. It may fall inside a character. -/
def advance (p : Position) (bytes : Nat) : List Char → Position
  | [] => p
  | c :: rest =>
    if bytes < c.utf8Size then ⟨p.line, p.column + bytes⟩
    else if c = '\n' then advance ⟨p.line + 1, 0⟩ (bytes - 1) rest
    else advance ⟨p.line, p.column + c.utf8Size⟩ (bytes - c.utf8Size) rest

def message (p : Position) : String :=
  " at line " ++ toString p.line ++ " column " ++ toString p.column

end Position

def byteCount : List Char → Nat
  | [] => 0
  | c :: rest => c.utf8Size + byteCount rest

/-- Why reading a text stopped. A placed fault knows how many bytes were left unread. A mismatch
found behind the value it is about stays loose, with the text that was left, until the brackets
around it give it a place. -/
inductive Fault
  | placed (cause : Cause) (unread : Nat)
  | loose (reason : Mismatch) (rest : List Char)

namespace Fault

def cause : Fault → Cause
  | .placed cause _ => cause
  | .loose reason _ => .mismatched reason

def before (rest : List Char) (cause : Cause) : Fault := .placed cause (byteCount rest)

/-- A fault placed behind the given number of bytes of the rest of the text. -/
def behind (bytes : Nat) (rest : List Char) (cause : Cause) : Fault :=
  .placed cause (byteCount rest - bytes)

def looking (rest : List Char) (reason : Malformation) : Fault := behind 1 rest (.malformed reason)

def atEnd (within : Unfinished) : Fault := .placed (.unfinished within) 0

def mismatch (rest : List Char) (reason : Mismatch) : Fault := before rest (.mismatched reason)

/-- Place a loose fault where the text goes on behind the brackets it was found in. -/
def settle (close : List Char → List Char) : Fault → Fault
  | .placed cause unread => .placed cause unread
  | .loose reason rest => mismatch (close rest) reason

def position? (text : List Char) : Fault → Option Position
  | .placed _ unread => some (Position.start.advance (byteCount text - unread) text)
  | .loose _ _ => none

end Fault

structure Error where
  cause : Cause
  position : Option Position

namespace Error

def ofFault (text : List Char) (fault : Fault) : Error := ⟨fault.cause, fault.position? text⟩

def ofMismatch (reason : Mismatch) : Error := ⟨.mismatched reason, none⟩

def message (e : Error) : String :=
  e.cause.message ++ (match e.position with
    | some p => p.message
    | none => "")

end Error

end GeoQuery.Json
