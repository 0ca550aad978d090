import Frontend.CommandLine.Run

/-!
# The program

Reads what the options ask for, runs, and prints.
-/

namespace Frontend

/-- The reason for which the system refuses to read a file. -/
def FileFault.ofError : IO.Error → FileFault
  | .noFileOrDirectory _ _ _ => .notFound
  | .inappropriateType _ code _ => if code = 21 then .isDirectory else .notDirectory
  | .permissionDenied _ _ _ => .system "Permission denied (os error 13)"
  | e => .system (toString e)

/-- Reads a file. -/
def readFile (path : String) : IO (Except FileFault (List UInt8)) := do
  try
    let content ← IO.FS.readBinFile path
    pure (.ok content.toList)
  catch e => pure (.error (.ofError e))

/-- Runs on the arguments, after reading the one source that they ask for. -/
def runProgram (arguments : List String) : IO Outcome := do
  match (Options.ofArguments arguments).toOption.map Run.sourceOf with
  | some (.path path) =>
    let content ← readFile path
    pure (Run.program arguments (fun _ => content) [])
  | some .input =>
    let input ← (← IO.getStdin).readBinToEnd
    pure (Run.program arguments (fun _ => .error .notFound) input.toList)
  | _ => pure (Run.program arguments (fun _ => .error .notFound) [])

/-- Prints what goes on a line, with the time since the start for a phase. -/
def printOutput (start : Nat) : Output → IO Unit
  | .line text => IO.println text
  | .elapsed phase => do
    let now ← IO.monoNanosNow
    IO.println (phase ++ " in " ++ Decimal.ofNat (now - start) ++ "ns")

end Frontend

/-- The command line. -/
def main (arguments : List String) : IO UInt32 := do
  let start ← IO.monoNanosNow
  let outcome ← Frontend.runProgram arguments
  for text in outcome.stderr do
    IO.eprintln text
  for output in outcome.stdout do
    Frontend.printOutput start output
  pure outcome.status.toUInt32
