import Frontend.Diagnostic
import Frontend.Text.Blank
import Frontend.Text.Line

/-!
# Reports

A report shows a diagnostic above the source line it is about, with a caret under the place. The line
is shown without its indentation, and the caret moves along. A place past the end of the source is
shown behind its last line; if there is no line at all, the report ends after the name of the file.
-/

namespace Frontend.Report

/-- Whether the character indents a line. -/
def isIndent (c : Char) : Bool :=
  c = ' ' || c = '\t'

/-- The text without the blanks at its end. -/
def trimEnd (text : List Char) : List Char :=
  (text.reverse.dropWhile Text.isBlank).reverse

/-- What was refused, and why. -/
def headline (f : Fault) : String :=
  match f.tip? with
  | none => "Error: " ++ f.name
  | some tip => "Error: " ++ f.name ++ " (" ++ tip ++ ")"

/-- The bar to the left of the source, behind the columns of a line number. -/
def bar (number : String) : String :=
  String.ofList (List.replicate (number.length + 1) ' ') ++ "|"

/-- The caret under the place on the line. A place in the indentation moves to its end. -/
def caret (line : Text.Line) : String :=
  let indent := Text.byteLength (line.text.takeWhile isIndent)
  String.ofList (List.replicate (line.column - indent) '-') ++ "^"

/-- The part of a report that shows a place on a line. -/
def excerpt (line : Text.Line) : List String :=
  let number := Decimal.ofNat line.number
  [bar number,
    number ++ " | " ++ String.ofList (trimEnd (line.text.dropWhile isIndent)),
    bar number ++ " " ++ caret line]

/-- The line of the source that a place is on, its last line for a place past the end. -/
def line? (source : List Char) (offset : Nat) : Option Text.Line :=
  (Text.Line.locate? source offset).or (Text.Line.last? source)

/-- The lines of the report of a diagnostic. -/
def lines (d : Diagnostic) (source : String) : List String :=
  [headline d.fault, "-> " ++ d.position.file] ++
    match line? source.toList d.position.offset.toNat with
    | none => []
    | some line => excerpt line

end Frontend.Report
