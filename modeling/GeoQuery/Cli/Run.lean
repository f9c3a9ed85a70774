import GeoQuery.Cli.Batch
import GeoQuery.Cli.Options
import GeoQuery.Text.Blank
import GeoQuery.Text.Quoted

namespace GeoQuery.Cli

/-- A directory that holds plain files and nothing else, by name. -/
structure Directory where
  files : List (String × String)
deriving DecidableEq

inductive PathFault
  | absent
  | notDirectory
  | directory
  | tooLong
deriving DecidableEq

def PathFault.message : PathFault → String
  | .absent => "No such file or directory (os error 2)"
  | .notDirectory => "Not a directory (os error 20)"
  | .directory => "Is a directory (os error 21)"
  | .tooLong => "File name too long (os error 36)"

namespace Directory

def find? (d : Directory) (name : String) : Option String := d.files.lookup name

def parts (path : String) : List String := (path.toList.splitOn '/').map String.ofList

/-- The parts of a path that lead anywhere. -/
def steps (path : String) : List String := (parts path).filter fun part => part ≠ "" ∧ part ≠ "."

/-- The names on a path, behind its steps up. -/
def names (path : String) : List String := (steps path).dropWhile (· = "..")

/-- The path starts at the root, or with a step up. -/
def leaves (path : String) : Bool :=
  (parts path).head? = some "" || (steps path).head? = some ".."

/-- How a path ends: with a name, with slashes behind a name, or with a dot behind one. -/
inductive Ending
  | name
  | slash
  | dot
deriving DecidableEq

def ending (path : String) : Ending :=
  match (parts path).reverse with
  | "" :: rest => if (rest.dropWhile (· = "")).head? = some "." then .dot else .slash
  | "." :: _ => .dot
  | _ => .name

def nameLimit : Nat := 255

def pathLimit : Nat := 4095

/-- The directory as the first name on a path is looked up in it. Outside of it no file is known. -/
def reached (d : Directory) (path : String) : Directory := if leaves path then ⟨[]⟩ else d

/-- The fault of a path that goes on behind a name. -/
def beyond (d : Directory) (name : String) : PathFault :=
  if nameLimit < name.utf8ByteSize then .tooLong
  else if (d.find? name).isSome then .notDirectory
  else .absent

/-- The name in the directory that a path leads to. A file is not created in the place of a
directory, so slashes behind its name are refused as one, before the name is looked at. -/
def resolve (d : Directory) (creating : Bool) (path : String) : Except PathFault String :=
  if path = "" then .error .absent
  else if pathLimit < path.utf8ByteSize then .error .tooLong
  else match names path, ending path with
    | [], _ => .error .directory
    | [name], .name =>
      if nameLimit < name.utf8ByteSize then .error .tooLong
      else if leaves path then .error .absent
      else .ok name
    | [name], .slash => .error (if creating then .directory else (d.reached path).beyond name)
    | name :: _, _ => .error ((d.reached path).beyond name)

def read (d : Directory) (path : String) : Except PathFault String := do
  match d.find? (← d.resolve false path) with
  | some text => return text
  | none => throw .absent

def write (d : Directory) (path text : String) : Except PathFault Directory := do
  let name ← d.resolve true path
  return ⟨d.files.filter (·.1 ≠ name) ++ [(name, text)]⟩

end Directory

/-- What a run notes on its way. Both notes are below a warning, so only a verbose run logs them. -/
inductive Note
  | read (bytes : Nat) (source : String)
  | compiled (count : Nat)
deriving DecidableEq

/-- A note as the log has it behind the time: its level, its message and its fields. -/
def Note.line : Note → String
  | .read bytes source =>
    "DEBUG read query input bytes=" ++ toString bytes ++ " source=" ++ Text.quoted source
  | .compiled count => "INFO compiled queries count=" ++ toString count

/-- The notes that a run with these options logs if the environment asks for no other level. -/
def Options.logged (o : Options) (notes : List Note) : List Note := if o.verbose then notes else []

/-- What is left of a run. Standard error has the log, a line for each note, and behind it `stderr`. -/
structure Outcome where
  exitCode : Nat
  stdout : String
  log : List Note
  stderr : String
  directory : Directory

def Outcome.failed (log : List Note) (failure : Failure) (d : Directory) : Outcome :=
  ⟨1, "", log, failure.report, d⟩

def acceptInput (text : String) : Except Failure String :=
  if Text.isBlank text then .error .empty else .ok text

def readInput (o : Options) (stdin : ByteArray) (d : Directory) : Except Failure String :=
  match o.input with
  | some path =>
    ((d.read path).mapError fun fault => .unreadable (some path) fault.message) >>= acceptInput
  | none =>
    match String.fromUTF8? stdin with
    | some text => acceptInput text
    | none => .error (.unreadable none "stream did not contain valid UTF-8")

def Note.ofInput (o : Options) (text : String) : Note :=
  .read text.utf8ByteSize (o.input.getD "stdin")

/-- Where the lines of a run go: standard output, and the directory behind the run. -/
def writeOutput (o : Options) (lines : List String) (d : Directory) :
    Except Failure (String × Directory) :=
  match o.output with
  | some path =>
    (d.write path ("\n".intercalate lines)).map (("", ·)) |>.mapError fun fault =>
      .unwritable path fault.message
  | none => .ok ("\n".intercalate lines ++ "\n", d)

/-- A run with these options: read, compile, write, up to the first failure. -/
def perform (o : Options) (stdin : ByteArray) (d : Directory) : Outcome :=
  match readInput o stdin d with
  | .error failure => .failed [] failure d
  | .ok text =>
    match compileText o.json text with
    | .error failure => .failed (o.logged [.ofInput o text]) failure d
    | .ok lines =>
      let log := o.logged [.ofInput o text, .compiled lines.length]
      match writeOutput o lines d with
      | .error failure => .failed log failure d
      | .ok (stdout, d) => ⟨0, stdout, log, "", d⟩

/-- What is answered to arguments that ask for no run: help, a version, or a complaint. -/
structure Answer where
  exitCode : Nat
  stdout : String
  stderr : String

def Answer.complaint (_ : List String) : Answer :=
  ⟨2, "", "Usage: compile [-i FILE] [-o FILE] [--json] [-v]\n"⟩

/-- A run with these arguments. What `answer` says is up to the reader of the arguments. -/
def run (arguments : List String) (stdin : ByteArray) (d : Directory)
    (answer : List String → Answer := Answer.complaint) : Outcome :=
  match Options.ofArguments? arguments with
  | none => ⟨(answer arguments).exitCode, (answer arguments).stdout, [], (answer arguments).stderr, d⟩
  | some o => perform o stdin d

end GeoQuery.Cli
