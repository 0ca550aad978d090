import Frontend.Parse.Basic
import Frontend.Token.Stream
import Frontend.Tree.Printer

/-!
# Programs

A program is what a token list is parsed to: the statements that could be built, and everything that
was reported on the way, both in the order of the source. Parsing always goes through to the end of
the input.
-/

namespace Frontend

/-- The statements of a source and what was reported about it. -/
structure Program where
  statements : List Stmt
  errors : List Diagnostic

namespace Program

/-- The mark of the end of an input that has none of its own. -/
def impliedEnd : Token := ⟨.endOfInput, "", .null⟩

/-- The mark that is seen behind the end of a token list: its own if the list ends with one. -/
def endMark (tokens : List Token) : Token :=
  match tokens.getLast? with
  | some t => if t.isEnd then t else impliedEnd
  | none => impliedEnd

/-- Parses a token list by the grammar of the language. -/
def parse (tokens : List Token) : Program :=
  let step := Parse.statements ⟨.standard, endMark tokens⟩ tokens false
  ⟨step.value, step.errors⟩

/-- Parses a source. -/
def ofSource (r : Reading) (source : String) : Program :=
  parse (r.tokens source)

/-- The canonical text of a program. -/
def text (program : Program) : String :=
  programText program.statements

/-- What is recorded about a diagnostic. -/
def recordError (d : Diagnostic) : Record :=
  ⟨.debug, "parse error: " ++ d.text⟩

/-- What is recorded while a token list is parsed. -/
def log (tokens : List Token) : List Record :=
  let program := parse tokens
  ⟨.debug, "parsing " ++ Decimal.ofNat tokens.length ++ " tokens"⟩ ::
    program.errors.map recordError ++
    [⟨.debug, "parsed " ++ Decimal.ofNat program.statements.length ++ " statements with " ++
      Decimal.ofNat program.errors.length ++ " errors"⟩]

end Program

end Frontend
