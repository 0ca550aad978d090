import Frontend.Text.Bytes

/-!
# Lines of a text

A line runs up to and including its newline; the last one may lack it. A byte offset below the
length of the text lies on exactly one line.

* `flatten_lines`: the lines put together are the text.
* `Line.locate?` finds the line that holds an offset, `Line.last?` the last line that is left when
  the newlines at the end of the text are taken away.
-/

namespace Frontend.Text

/-- The lines of a text, each with its newline. -/
def lines : List Char → List (List Char)
  | [] => []
  | c :: rest =>
    if c = '\n' then [c] :: lines rest
    else match lines rest with
      | [] => [[c]]
      | line :: others => (c :: line) :: others

theorem flatten_lines (text : List Char) : (lines text).flatten = text := by
  induction text with
  | nil => rfl
  | cons c rest ih =>
    simp only [lines]
    split
    · simp [ih]
    · split
      · rename_i hLines
        simp_all
      · rename_i hLines
        simp_all

/-- A line of a text with a place on it. -/
structure Line where
  /-- The first line has the number 1. -/
  number : Nat
  /-- The characters of the line. -/
  text : List Char
  /-- The byte offset of the place within the line. -/
  column : Nat
  deriving DecidableEq

namespace Line

/-- Looks for the offset on the lines, the first of which has the given number. -/
def search : Nat → List (List Char) → Nat → Option Line
  | _, [], _ => none
  | number, line :: others, offset =>
    if offset < byteLength line then some ⟨number, line, offset⟩
    else search (number + 1) others (offset - byteLength line)

/-- The line that holds the byte offset, none if the offset is not below the length of the text. -/
def locate? (text : List Char) (offset : Nat) : Option Line :=
  search 1 (lines text) offset

/-- The text without the newlines at its end. -/
def trimNewlines (text : List Char) : List Char :=
  (text.reverse.dropWhile (· = '\n')).reverse

/-- The last line before the newlines that end the text, with the place just past its last
character. There is none if the text holds nothing but newlines. -/
def last? (text : List Char) : Option Line :=
  let found := lines (trimNewlines text)
  found.getLast?.map fun line => ⟨found.length, line, byteLength line⟩

end Line

end Frontend.Text
