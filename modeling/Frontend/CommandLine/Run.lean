import Frontend.CommandLine.Options
import Frontend.Report
import Frontend.Value

/-!
# Running the program

What the program prints and how it exits, as a function of its arguments, of what its file reads as
and of its standard input. The time that a phase took is the one thing that is left open.

In the interactive mode each line is a source of its own, and nothing passes from one line to the
next. In file mode a failure to read or to parse the source makes the program exit with status 1.
Arguments that are refused make it exit with status 2 before anything is read.
-/

namespace Frontend

/-- One thing to print on a line of the standard output. -/
inductive Output where
  | line (text : String)
  /-- The name of a phase and the time it took. -/
  | elapsed (phase : String)
  deriving DecidableEq

inductive FileFault where
  | notFound
  | isDirectory
  /-- The path goes on behind a file. -/
  | notDirectory
  | notText
  /-- Another reason, in the words of the system. -/
  | system (text : String)
  deriving DecidableEq

def FileFault.message : FileFault → String
  | notFound => "No such file or directory (os error 2)"
  | isDirectory => "Is a directory (os error 21)"
  | notDirectory => "Not a directory (os error 20)"
  | notText => "stream did not contain valid UTF-8"
  | system text => text

/-- What a run does in the end. -/
structure Outcome where
  stdout : List Output
  /-- The lines on the standard error output. -/
  stderr : List String
  status : Nat
  deriving DecidableEq

/-! ## Lines of the standard input -/

/-- The lines of an input, each with whether a newline ends it. -/
def inputLines : List UInt8 → List (List UInt8 × Bool)
  | [] => []
  | b :: rest =>
    if b = 10 then ([], true) :: inputLines rest
    else match inputLines rest with
      | [] => [([b], false)]
      | (line, ended) :: others => (b :: line, ended) :: others

/-- A line without the carriage return that may stand before its newline. -/
def withoutReturn (line : List UInt8 × Bool) : List UInt8 :=
  if line.2 ∧ line.1.getLast? = some 13 then line.1.dropLast else line.1

def decode? (bytes : List UInt8) : Option String :=
  String.fromUTF8? ⟨bytes.toArray⟩

/-- The texts of the lines up to the first that is no text. -/
def inputTexts (input : List UInt8) : List String :=
  ((inputLines input).map fun line => decode? (withoutReturn line)).takeWhile Option.isSome
    |>.filterMap id

namespace Run

def listing (tokens : List Token) : String :=
  "[" ++ " ".intercalate (tokens.map Token.text) ++ "]"

/-- The line that shows the value of a program, or why it has none. -/
def valueLine (program : Program) : String :=
  match program.eval with
  | .ok v => v.text
  | .error d => "Error: " ++ d.fault.name ++ " (" ++ d.fault.message ++ ")"

def stamp (timed : Bool) (phase : String) : List Output :=
  if timed then [.elapsed phase] else []

def reports (program : Program) (source : String) : List Output :=
  program.errors.flatMap fun d => (Report.lines d source).map .line

def results (o : Options) (program : Program) (timed : Bool) : List Output :=
  (if o.parse then [.line program.text] else []) ++
    if o.eval then .line (valueLine program) :: stamp timed "Evaluated" else []

/-- What the phases that are asked for print about a source, and whether it has no errors. A source
that is not parsed has none. -/
def source (o : Options) (text : String) (file : Option String) (timed : Bool) :
    List Output × Bool :=
  let tokens := (o.reading file).tokens text
  let lexed := stamp timed "Tokenized" ++ if o.lex then [.line (listing tokens)] else []
  if o.parse ∨ o.eval then
    let program := Program.parse tokens
    if program.errors = [] then
      (lexed ++ stamp timed "Parsed" ++ results o program timed, true)
    else (lexed ++ stamp timed "Parsed" ++ reports program text, false)
  else (lexed, true)

def interactive (o : Options) (input : List UInt8) : List Output :=
  .line "Running repl..." ::
    ((inputTexts input).flatMap fun text => (source o text none false).1) ++
    [.line "Closing repl"]

def done : List Output :=
  [.line "", .elapsed "Done"]

/-- Runs on a file that reads as the given bytes. -/
def file (o : Options) (path : String) (content : Except FileFault (List UInt8)) : Outcome :=
  match content.bind fun bytes => (decode? bytes).elim (.error .notText) .ok with
  | .error e => ⟨done, ["error when reading file " ++ path ++ ": " ++ e.message], 1⟩
  | .ok text =>
    let printed := source o text o.fileName? true
    ⟨printed.1 ++ done, [], if printed.2 then 0 else 1⟩

def usage : List String :=
  ["USAGE:",
    "    lang_frontend --file <path> [--lex] [--parse] [--eval] [--verbose]",
    "    lang_frontend --repl [--lex] [--parse] [--eval] [--verbose]",
    "",
    "OPTIONS:",
    "    --file <path>   Path to file with code",
    "    --lex           Print tokenizer output",
    "    --parse         Print parser output",
    "    --eval          Print the value of the program",
    "    --repl          Read lines from stdin, ignores --file",
    "    --verbose       Trace every tokenizer step (with RUST_LOG=trace)"]

def refuse (e : OptionFault) : Outcome :=
  ⟨usage.map .line, ["error: " ++ e.message], 2⟩

inductive Source where
  | input
  | path (path : String)
  | nothing
  deriving DecidableEq

/-- Lines take precedence over a file. -/
def sourceOf (o : Options) : Source :=
  if o.repl then .input else o.file.elim .nothing .path

/-- Runs the program. The file is looked up only if it is to be read, and so is the input. -/
def program (arguments : List String) (read : String → Except FileFault (List UInt8))
    (input : List UInt8) : Outcome :=
  match Options.ofArguments arguments with
  | .error e => refuse e
  | .ok o =>
    match sourceOf o with
    | .input => ⟨interactive o input ++ done, [], 0⟩
    | .path path => file o path (read path)
    | .nothing => ⟨done, [], 1⟩

end Run

end Frontend
