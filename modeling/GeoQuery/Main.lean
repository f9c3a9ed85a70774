import GeoQuery.Cli.Run

/-!
The program: reads and writes the real files that `GeoQuery.Cli` describes.
-/

namespace GeoQuery.Cli

/-- The fault of a path that an error of the system stands for. Its number may come negated. -/
def PathFault.ofSystem? : IO.Error → Option PathFault
  | .noFileOrDirectory .. => some .absent
  | .inappropriateType _ code _ =>
    if code = 20 ∨ code = -20 then some .notDirectory
    else if code = 21 ∨ code = -21 then some .directory
    else none
  | .invalidArgument _ code _ => if code = 36 ∨ code = -36 then some .tooLong else none
  | _ => none

def systemReason (e : IO.Error) : String := (PathFault.ofSystem? e).elim (toString e) PathFault.message

def readText (o : Options) : IO (Except Failure String) := do
  let bytes ← try
      let bytes ← match o.input with
        | some path => IO.FS.readBinFile path
        | none => (← IO.getStdin).readBinToEnd
      pure (Except.ok bytes)
    catch e => pure (Except.error (Failure.unreadable o.input (systemReason e)))
  return bytes.bind fun bytes =>
    match String.fromUTF8? bytes with
    | some text => acceptInput text
    | none => .error (.unreadable o.input "stream did not contain valid UTF-8")

def writeText (o : Options) (commands : String) : IO (Except Failure Unit) := do
  match o.output with
  | none => IO.println commands; return .ok ()
  | some path =>
    try
      IO.FS.writeFile path commands
      return .ok ()
    catch e => return .error (.unwritable path (systemReason e))

def writeNote (o : Options) (note : Note) : IO Unit :=
  (o.logged [note]).forM fun note => IO.eprintln note.line

def performIO (o : Options) : IO (Except Failure Unit) := do
  match ← readText o with
  | .error failure => return .error failure
  | .ok text =>
    writeNote o (.ofInput o text)
    match compileText o.json text with
    | .error failure => return .error failure
    | .ok lines =>
      writeNote o (.compiled lines.length)
      writeText o ("\n".intercalate lines)

end GeoQuery.Cli

open GeoQuery.Cli in
def main (arguments : List String) : IO UInt32 := do
  match Options.ofArguments? arguments with
  | none =>
    let answer := Answer.complaint arguments
    IO.print answer.stdout
    IO.eprint answer.stderr
    return UInt32.ofNat answer.exitCode
  | some o =>
    match ← performIO o with
    | .ok () => return 0
    | .error failure => IO.eprint failure.report; return 1
