namespace GeoQuery.Cli

structure Options where
  input : Option String := none
  output : Option String := none
  json : Bool := false
  verbose : Bool := false
deriving DecidableEq

namespace Options

def setInput? (o : Options) (path : String) : Option Options :=
  if o.input.isSome then none else some { o with input := some path }

def setOutput? (o : Options) (path : String) : Option Options :=
  if o.output.isSome then none else some { o with output := some path }

def setJson? (o : Options) : Option Options :=
  if o.json then none else some { o with json := true }

def setVerbose? (o : Options) : Option Options :=
  if o.verbose then none else some { o with verbose := true }

/-- An argument that starts with a dash is no value, a single dash excepted. -/
def isValue (argument : String) : Bool :=
  match argument.toList with
  | '-' :: _ :: _ => false
  | _ => true

def takeValue? (set : String → Option Options) : List String → Option (Options × List String)
  | value :: rest => if isValue value then (set value).map (·, rest) else none
  | [] => none

/-- The letters of an argument with one dash. An option with a value takes the letters behind it,
without an equals sign before them, or else the next argument. -/
def letters? (o : Options) (rest : List String) : List Char → Option (Options × List String)
  | [] => some (o, rest)
  | 'v' :: more => o.setVerbose?.bind fun o => letters? o rest more
  | 'i' :: more => valued o.setInput? more
  | 'o' :: more => valued o.setOutput? more
  | _ :: _ => none
where
  valued (set : String → Option Options) : List Char → Option (Options × List String)
    | [] => takeValue? set rest
    | '=' :: value => (set (String.ofList value)).map (·, rest)
    | value => (set (String.ofList value)).map (·, rest)

def take? (o : Options) (argument : String) (rest : List String) :
    Option (Options × List String) :=
  match argument.toList with
  | '-' :: '-' :: word =>
    let name := String.ofList (word.takeWhile (· ≠ '='))
    match word.dropWhile (· ≠ '=') with
    | [] =>
      if name = "input" then takeValue? o.setInput? rest
      else if name = "output" then takeValue? o.setOutput? rest
      else if name = "json" then o.setJson?.map (·, rest)
      else if name = "verbose" then o.setVerbose?.map (·, rest)
      else none
    | _ :: value =>
      if name = "input" then (o.setInput? (String.ofList value)).map (·, rest)
      else if name = "output" then (o.setOutput? (String.ofList value)).map (·, rest)
      else none
  | '-' :: letter :: letters => letters? o rest (letter :: letters)
  | _ => none

/-- The options of the command. Every round takes an argument, so their number bounds the rounds. -/
def takeAll? (o : Options) : Nat → List String → Option Options
  | _, [] => some o
  | 0, _ :: _ => none
  | rounds + 1, argument :: rest =>
    if argument = "--" ∧ rest = [] then some o
    else (take? o argument rest).bind fun (o, rest) => takeAll? o rounds rest

def beforeCommand? (verbose : Bool) : List String → Option Options
  | "compile" :: rest =>
    (takeAll? {} rest.length rest).map fun o => { o with verbose := verbose || o.verbose }
  | argument :: rest =>
    if (argument = "-v" ∨ argument = "--verbose") ∧ !verbose then beforeCommand? true rest else none
  | [] => none

def ofArguments? (arguments : List String) : Option Options := beforeCommand? false arguments

end Options

end GeoQuery.Cli
