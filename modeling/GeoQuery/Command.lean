import GeoQuery.Argument
import GeoQuery.Json.Compact
import GeoQuery.Shape.Text
import GeoQuery.Shape.Write

/-!
Commands: a name and the tokens behind it, in the order the server expects.
-/

namespace GeoQuery

structure Command where
  name : String
  args : List String
deriving DecidableEq

namespace Command

def tokens (c : Command) : List String := c.name :: c.args

/-- The tokens with a space between them, as they are. -/
def line (c : Command) : String := " ".intercalate c.tokens

abbrev shape : Shape :=
  .record "struct Command" .ignored <|
    .required "name" (.scalar .text) <|
    .required "args" (.list (.scalar .text)) .nil

def ofValue : shape.Value → Command
  | (name, args, ()) => ⟨name, args⟩

def toValue (c : Command) : shape.Value := (c.name, c.args, ())

/-- Read a command from a JSON text. Members that are no part of a command are skipped. -/
def ofJsonText (text : String) : Except Error Command :=
  match shape.ofText text with
  | .ok value => .ok (ofValue value)
  | .error reason => .error (.json reason)

def toJson (c : Command) : Json := shape.toJson c.toValue

end Command

inductive Event
  /-- A clause that can stand only once was set again. -/
  | overwritten (clause : String)
  | compiled (name : String) (arguments : Nat)
deriving DecidableEq

namespace Event

def line : Event → String
  | .overwritten clause => "DEBUG singular clause overwritten clause=" ++ clause
  | .compiled name arguments =>
    "TRACE compiled command name=" ++ name ++ " args=" ++ toString arguments

/-- The event of setting a slot, if it holds something already. -/
def overwriteIf (occupied : Bool) (clause : String) : Option Event :=
  if occupied then some (.overwritten clause) else none

def ofCompiled : Except Error Command → List Event
  | .ok c => [.compiled c.name c.args.length]
  | .error _ => []

end Event

/-- A compilation: what comes out of it, and what it records. -/
structure Compilation where
  result : Except Error Command
  events : List Event

namespace Compilation

/-- A command is recorded as soon as all of its tokens are there. -/
def finish (name : String) (tokens : List String) : Compilation :=
  ⟨.ok ⟨name, tokens⟩, [.compiled name tokens.length]⟩

/-- The command of the arguments. It is not finished if one of them has no token. -/
def ofArguments (name : String) (arguments : List Argument) : Compilation :=
  match Argument.encodeAll arguments with
  | .ok tokens => finish name tokens
  | .error reason => ⟨.error reason, []⟩

end Compilation

end GeoQuery
