import GeoQuery.Json.Brackets

/-!
Skipping a value that is not wanted. What is skipped has to be well formed, but numbers may be out
of range, surrogates unpaired, and brackets nested to any depth.
-/

namespace GeoQuery.Json

def skipString : List Char → Except Fault (List Char)
  | [] => .error (.atEnd .string)
  | '"' :: rest => .ok rest
  | '\\' :: 'u' :: a :: b :: c :: d :: rest =>
    if (hexUnit? a b c d).isSome then skipString rest
    else .error (brokenUnit (a :: b :: c :: d :: rest))
  | '\\' :: 'u' :: rest => .error (brokenUnit rest)
  | '\\' :: c :: rest =>
    if (letterEscape? c).isSome then skipString rest
    else .error (.looking (c :: rest) .invalidEscape)
  | '\\' :: [] => .error (.atEnd .string)
  | c :: rest =>
    if c < ' ' then .error (.before (c :: rest) (.malformed .controlCharacter))
    else skipString rest

def skipNumeral (text : List Char) : Except Fault (List Char) :=
  (Numeral.scan (.malformed .invalidNumber) false text).map Prod.snd

def skipLeaf : List Char → Except Fault (List Char)
  | [] => .error (.atEnd .value)
  | '"' :: rest => skipString rest
  | 'n' :: rest => scanKeyword ['u', 'l', 'l'] rest
  | 't' :: rest => scanKeyword ['r', 'u', 'e'] rest
  | 'f' :: rest => scanKeyword ['a', 'l', 's', 'e'] rest
  | '-' :: rest => skipNumeral rest
  | c :: rest =>
    if c.isDigit then skipNumeral (c :: rest) else .error (.looking (c :: rest) .expectedValue)

inductive Bracket
  | array
  | object
deriving DecidableEq

def Bracket.unfinished : Bracket → Fault
  | .array => .atEnd .array
  | .object => .atEnd .object

def Bracket.closing : Bracket → Char
  | .array => ']'
  | .object => '}'

def Bracket.expectedComma : Bracket → Malformation
  | .array => .expectedCommaOrBracket
  | .object => .expectedCommaOrBrace

def Bracket.skipName : Bracket → List Char → Except Fault (List Char)
  | .array, text => .ok text
  | .object, text =>
    match skipBlanks text with
    | [] => .error (.atEnd .object)
    | '"' :: rest => do scanColon (← skipString rest)
    | c :: rest => .error (.looking (c :: rest) .nameNotString)

/-- Where skipping stands: before a value, just behind an opening bracket, or behind a value. -/
inductive Place
  | value
  | opened
  | behind

/-- Skip up to the end of the outermost value; the open brackets are listed innermost first. Every
second round reads a character. -/
def skipFrom : Nat → Place → List Bracket → List Char → Except Fault (List Char)
  | 0, _, _, _ => .error (.atEnd .value)
  | _ + 1, .behind, [], text => .ok text
  | _ + 1, .opened, [], text => .ok text
  | rounds + 1, .value, stack, text =>
    match skipBlanks text with
    | '[' :: rest => skipFrom rounds .opened (.array :: stack) rest
    | '{' :: rest => skipFrom rounds .opened (.object :: stack) rest
    | rest => do skipFrom rounds .behind stack (← skipLeaf rest)
  | rounds + 1, .opened, top :: stack, text =>
    match skipBlanks text with
    | [] => .error top.unfinished
    | c :: rest =>
      if c = top.closing then skipFrom rounds .behind stack rest
      else do skipFrom rounds .value (top :: stack) (← top.skipName (c :: rest))
  | rounds + 1, .behind, top :: stack, text =>
    match skipBlanks text with
    | [] => .error top.unfinished
    | c :: rest =>
      if c = top.closing then skipFrom rounds .behind stack rest
      else if c = ',' then do skipFrom rounds .value (top :: stack) (← top.skipName rest)
      else .error (.looking (c :: rest) top.expectedComma)

def skip (text : List Char) : Except Fault (List Char) :=
  skipFrom (2 * text.length + 2) .value [] text

end GeoQuery.Json
