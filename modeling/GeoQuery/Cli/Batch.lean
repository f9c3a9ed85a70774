import GeoQuery.Json.Reader
import GeoQuery.Query

namespace GeoQuery.Cli

inductive Failure
  | unreadable (path : Option String) (reason : String)
  | empty
  | malformed (reason : Json.Error)
  | misdescribed (reason : Json.Mismatch)
  | uncompilable (number : Nat) (reason : Error)
  | unwritable (path : String) (reason : String)

namespace Failure

def context : Failure → String
  | .unreadable (some path) _ => "Failed to read query file: " ++ path
  | .unreadable none _ => "Failed to read query JSON from stdin"
  | .empty => "No query given: input is empty"
  | .malformed _ => "Failed to parse query JSON"
  | .misdescribed _ => "Failed to parse query description"
  | .uncompilable number _ => "Failed to compile query #" ++ toString number
  | .unwritable path _ => "Failed to write commands to: " ++ path

def cause? : Failure → Option String
  | .unreadable _ reason | .unwritable _ reason => some reason
  | .empty => none
  | .malformed reason => some reason.message
  | .misdescribed reason => some (Json.Error.ofMismatch reason).message
  | .uncompilable _ reason => some reason.message

def indented (text : String) : String :=
  "    " ++ String.ofList (text.toList.flatMap fun c =>
    if c = '\n' then ['\n', ' ', ' ', ' ', ' '] else [c])

def report (f : Failure) : String :=
  "Error: " ++ f.context ++ (match f.cause? with
    | some cause => "\n\nCaused by:\n" ++ indented cause ++ "\n"
    | none => "\n")

end Failure

/-- The queries of a text: those of an array, or else the one that the whole text describes. -/
def queriesOfText (text : String) : Except Failure (List Query) :=
  match Json.ofText text with
  | .error reason => .error (.malformed reason)
  | .ok json =>
    let queries := match json with
      | .array items => items.mapM Query.ofJson
      | json => (Query.ofJson json).map fun query => [query]
    queries.mapError .misdescribed

/-- A command on a line of its own: its tokens with spaces between them, or as JSON. -/
def render (json : Bool) (c : Command) : String := if json then c.toJson.compact else c.line

def compileFrom (number : Nat) : List Query → Except Failure (List Command)
  | [] => .ok []
  | query :: rest =>
    match query.compile with
    | .error reason => .error (.uncompilable number reason)
    | .ok command => (compileFrom (number + 1) rest).map (command :: ·)

def compileText (json : Bool) (text : String) : Except Failure (List String) := do
  let commands ← compileFrom 1 (← queriesOfText text)
  return commands.map (render json)

end GeoQuery.Cli
