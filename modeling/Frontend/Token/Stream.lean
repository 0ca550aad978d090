import Frontend.Record
import Frontend.Token.Piece

/-!
# The token stream of a source

The lexemes of a source become tokens with their byte offsets, blanks being left out unless they are
asked for. A stray character becomes no token, but a warning is recorded. The stream ends with one
token that marks the end of the input.
-/

namespace Frontend

structure Reading where
  /-- The name of the source in the places of its tokens. -/
  file : String
  /-- Whether blanks become no tokens. -/
  skipBlanks : Bool
  /-- Whether every place and every lexeme is recorded. -/
  verbose : Bool
  deriving DecidableEq

namespace Reading

def unnamed : String := "shell"

/-- An unnamed source, read without its blanks. -/
def default : Reading := ⟨unnamed, true, false⟩

/-- The token of a lexeme between two byte offsets, none for blanks that are left out. -/
def token? (r : Reading) (k : TokenClass) (lexeme : List Char) (start stop : Nat) : Option Token :=
  if k = .whitespace ∧ r.skipBlanks then none
  else some ⟨k, String.ofList lexeme, .ofOffsets r.file start stop⟩

/-- The tokens of the pieces, the first of which begins at the byte offset. -/
def tokensOf (r : Reading) : Nat → List Piece → List Token
  | offset, [] => [.endOfInput r.file offset]
  | offset, .stray c :: rest => r.tokensOf (offset + c.utf8Size) rest
  | offset, .lexeme k text :: rest =>
    let next := offset + Text.byteLength text
    (r.token? k text offset next).toList ++ r.tokensOf next rest

def tokens (r : Reading) (source : String) : List Token :=
  r.tokensOf 0 (Piece.scan source.toList)

/-- The first characters of the pieces, twenty if there are as many. No piece is empty, so that the
first twenty pieces are enough. -/
def preview (pieces : List Piece) : List Char :=
  ((pieces.take 20).flatMap Piece.text).take 20

/-- What is recorded about the first piece before it is cut off. -/
def recordPlace (pieces : List Piece) : Record :=
  ⟨.trace, "lexing " ++ Text.Quoted.text (String.ofList (preview pieces)) ++ "..."⟩

def recordLexeme (k : TokenClass) (lexeme : List Char) : Record :=
  ⟨.trace, "found " ++ Text.Quoted.text (String.ofList lexeme) ++ " -> " ++ k.name ++
    ", moving up by " ++ Decimal.ofNat (Text.byteLength lexeme)⟩

/-- What is recorded about a stray character at a byte offset. -/
def recordStray (c : Char) (offset : Nat) : Record :=
  ⟨.warn, "unknown token " ++ Text.Quoted.char c ++ " at " ++ Decimal.ofNat offset⟩

/-- What is recorded while the pieces are turned into tokens. -/
def logOf (r : Reading) : Nat → List Piece → List Record
  | _, [] => []
  | offset, .stray c :: rest =>
    (if r.verbose then [recordPlace (.stray c :: rest)] else []) ++
      recordStray c offset :: r.logOf (offset + c.utf8Size) rest
  | offset, .lexeme k text :: rest =>
    (if r.verbose then [recordPlace (.lexeme k text :: rest), recordLexeme k text] else []) ++
      r.logOf (offset + Text.byteLength text) rest

def log (r : Reading) (source : String) : List Record :=
  r.logOf 0 (Piece.scan source.toList)

end Reading

end Frontend
