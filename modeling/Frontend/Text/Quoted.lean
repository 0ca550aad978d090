import Frontend.Text.Extending
import Frontend.Text.Unprintable

/-!
# Quoted text

Messages show source text between quotes, with an escape for whatever could not be read back from
the page: the enclosing quote and the backslash, the common control characters, and by number every
other character that leaves no mark of its own or attaches to the one before it.
-/

namespace Frontend.Text.Quoted

/-- The number of the character in hexadecimal, as written in an escape. -/
def byNumber (c : Char) : List Char :=
  ['\\', 'u', '\x7b'] ++ Nat.toDigits 16 c.toNat ++ ['\x7d']

/-- The written form of one character between two marks. -/
def escape (mark c : Char) : List Char :=
  if c = '\x00' then ['\\', '0']
  else if c = '\t' then ['\\', 't']
  else if c = '\r' then ['\\', 'r']
  else if c = '\n' then ['\\', 'n']
  else if c = mark || c = '\\' then ['\\', c]
  else if isExtending c || isUnprintable c then byNumber c
  else [c]

/-- The text between the marks, each character in its written form. -/
def between (mark : Char) (text : List Char) : String :=
  String.ofList (mark :: text.flatMap (escape mark) ++ [mark])

/-- A text in double quotes. -/
def text (s : String) : String :=
  between '"' s.toList

/-- A single character in single quotes. -/
def char (c : Char) : String :=
  between '\'' [c]

end Frontend.Text.Quoted
