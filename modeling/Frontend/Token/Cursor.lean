import Frontend.Token.Stream

/-!
# A cursor moved by hand

Reading may begin anywhere in a source, and tokens of one's own may stand before those that are read.
The cursor counts bytes and goes wherever it is told: past the end of the source, where only the end
of the input is left, or inside a character, where nothing can be read.
-/

namespace Frontend

/-- A place in a source from which on it is read. -/
structure Cursor where
  reading : Reading
  source : String
  offset : Nat
  /-- The tokens that come before those of the source, in their order. -/
  pushed : List Token
  deriving DecidableEq

namespace Cursor

def start (reading : Reading) (source : String) : Cursor :=
  ⟨reading, source, 0, []⟩

def advance (c : Cursor) (bytes : Nat) : Cursor :=
  { c with offset := c.offset + bytes }

/-- Puts a token behind those that already come before the source. -/
def push (c : Cursor) (t : Token) : Cursor :=
  { c with pushed := c.pushed ++ [t] }

/-- Whether the cursor has reached the end of the source, or lies past it. -/
def atEnd (c : Cursor) : Bool :=
  Text.byteLength c.source.toList ≤ c.offset

/-- The source from the cursor on. There is none past the end and inside a character. -/
def remainder? (c : Cursor) : Option (List Char) :=
  Text.dropBytes? c.source.toList c.offset

/-- The character at the cursor, of which there is none at the end of the source. It can be looked at
only where the source can be read on. -/
def char? (c : Cursor) : Option (Option Char) :=
  c.remainder?.map List.head?

/-- The pieces that are read from the cursor on: none at the end of the source and past it. Inside a
character nothing can be read. -/
def pieces? (c : Cursor) : Option (List Piece) :=
  if c.atEnd then some [] else c.remainder?.map Piece.scan

/-- The tokens from the cursor on, those that come before them included. -/
def tokens? (c : Cursor) : Option (List Token) :=
  c.pieces?.map fun pieces => c.pushed ++ c.reading.tokensOf c.offset pieces

def log (c : Cursor) : List Record :=
  c.reading.logOf c.offset (c.pieces?.getD [])

end Cursor

end Frontend
