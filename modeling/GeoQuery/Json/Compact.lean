import GeoQuery.Json.Basic
import GeoQuery.Decimal.Written

namespace GeoQuery.Json

/-- A character inside a string: quotes, backslashes and control characters are escaped, the
common controls by a letter and the others by their number; all else stands for itself. -/
def escapeChar (c : Char) : List Char :=
  if c = '"' then ['\\', '"']
  else if c = '\\' then ['\\', '\\']
  else if c = '\n' then ['\\', 'n']
  else if c = '\t' then ['\\', 't']
  else if c = '\r' then ['\\', 'r']
  else if c = '\x08' then ['\\', 'b']
  else if c = '\x0c' then ['\\', 'f']
  else if c < ' ' then
    ['\\', 'u', '0', '0', Nat.digitChar (c.toNat / 16), Nat.digitChar (c.toNat % 16)]
  else [c]

def quote (s : String) : List Char := '"' :: s.toList.flatMap escapeChar ++ ['"']

def Number.render : Number → List Char
  | .integer i => (toString i.val).toList
  | .fraction x => x.json.toList

def Leaf.render : Leaf → List Char
  | .null => ['n', 'u', 'l', 'l']
  | .boolean true => ['t', 'r', 'u', 'e']
  | .boolean false => ['f', 'a', 'l', 's', 'e']
  | .number n => n.render
  | .text s => quote s

mutual

def render : Json → List Char
  | .leaf l => l.render
  | .array [] => ['[', ']']
  | .array (item :: rest) => '[' :: item.render ++ renderItems rest
  | .object [] => ['{', '}']
  | .object ((name, value) :: rest) => '{' :: quote name ++ ':' :: value.render ++ renderMembers rest

def renderItems : List Json → List Char
  | [] => [']']
  | item :: rest => ',' :: item.render ++ renderItems rest

def renderMembers : List (String × Json) → List Char
  | [] => ['}']
  | (name, value) :: rest => ',' :: quote name ++ ':' :: value.render ++ renderMembers rest

end

def compact (j : Json) : String := String.ofList j.render

end GeoQuery.Json
