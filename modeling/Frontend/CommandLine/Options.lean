import Frontend.CommandLine.Path
import Frontend.Token.Stream

/-!
# Options

The command line names a source file and switches phases on. An option begins with one or two dashes.
The file is given in the next argument or behind an equals sign; a switch takes no value. Of several
files the last one counts. Without a file only the interactive mode can run, and that is checked when
every argument has been accepted.
-/

namespace Frontend

inductive Switch where
  | lex
  | parse
  | eval
  | repl
  | verbose
  deriving DecidableEq

def Switch.ofName? (name : String) : Option Switch :=
  if name = "lex" then some lex
  else if name = "parse" then some parse
  else if name = "eval" then some eval
  else if name = "repl" then some repl
  else if name = "verbose" then some verbose
  else none

structure Options where
  file : Option String
  lex : Bool
  parse : Bool
  eval : Bool
  /-- Whether lines are read from the standard input, in place of the file. -/
  repl : Bool
  /-- Whether reading a source is recorded step by step. -/
  verbose : Bool
  deriving DecidableEq

inductive OptionFault where
  | missingFile
  | missingValue (flag : String)
  | unexpectedValue (flag : String)
  | unknownArgument (argument : String)
  deriving DecidableEq

def OptionFault.message : OptionFault → String
  | missingFile => "filepath not provided"
  | missingValue flag => "flag " ++ Text.Quoted.text flag ++ " needs a value"
  | unexpectedValue flag => "flag " ++ Text.Quoted.text flag ++ " does not take a value"
  | unknownArgument argument => "unknown argument " ++ Text.Quoted.text argument

namespace Options

def unset : Options := ⟨none, false, false, false, false, false⟩

def turnOn (o : Options) : Switch → Options
  | .lex => { o with lex := true }
  | .parse => { o with parse := true }
  | .eval => { o with eval := true }
  | .repl => { o with repl := true }
  | .verbose => { o with verbose := true }

/-- An argument without its dashes, none if it has none. -/
def flag? (argument : String) : Option (List Char) :=
  match argument.toList with
  | '-' :: '-' :: flag => some flag
  | '-' :: flag => some flag
  | _ => none

/-- The name of an option and the value behind its first equals sign. -/
def splitValue (flag : List Char) : String × Option String :=
  let name := flag.takeWhile (· ≠ '=')
  (String.ofList name,
    match flag.drop name.length with
    | [] => none
    | _ :: value => some (String.ofList value))

def withFile (o : Options) (path : String) : Except OptionFault Options :=
  if path = "" then .error (.missingValue "file") else .ok { o with file := some path }

/-- Takes a switch, to which no value may be given. -/
def withSwitch (o : Options) (argument name : String) (value : Option String) :
    Except OptionFault Options :=
  match Switch.ofName? name, value with
  | none, _ => .error (.unknownArgument argument)
  | some _, some _ => .error (.unexpectedValue name)
  | some switch, none => .ok (o.turnOn switch)

def read (o : Options) : List String → Except OptionFault Options
  | [] => .ok o
  | argument :: rest =>
    match (flag? argument).map splitValue with
    | none => .error (.unknownArgument argument)
    | some (name, value) =>
      if name = "file" then
        match value with
        | some path => (o.withFile path).bind fun o => o.read rest
        | none =>
          match rest with
          | path :: others => (o.withFile path).bind fun o => o.read others
          | [] => .error (.missingValue "file")
      else (o.withSwitch argument name value).bind fun o => o.read rest

/-- Requires a file, unless lines are read. -/
def validate (o : Options) : Except OptionFault Unit :=
  if o.repl = false ∧ o.file = none then .error .missingFile else .ok ()

def ofArguments (arguments : List String) : Except OptionFault Options :=
  (unset.read arguments).bind fun o => o.validate.map fun _ => o

def fileName? (o : Options) : Option String :=
  o.file.bind Path.fileName?

def reading (o : Options) (file : Option String) : Reading :=
  ⟨file.getD Reading.unnamed, true, o.verbose⟩

end Options

end Frontend
