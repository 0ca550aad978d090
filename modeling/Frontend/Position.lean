import Frontend.Decimal

/-!
# Places in a source

A place is a byte offset in a named source. Offsets are 32-bit words: a place further on is known
only modulo 2^32.
-/

namespace Frontend

/-- A byte offset in a named source. -/
structure Position where
  file : String
  offset : UInt32
  deriving DecidableEq

namespace Position

/-- The place of what comes from no source. -/
def null : Position := ⟨"<null>", 0⟩

/-- The place as `FILE:OFFSET`. -/
def text (p : Position) : String :=
  p.file ++ ":" ++ Decimal.ofNat p.offset.toNat

end Position

/-- A stretch of a named source, from its first byte to just past its last. -/
structure Span where
  file : String
  start : UInt32
  stop : UInt32
  deriving DecidableEq

namespace Span

/-- The stretch of what comes from no source. -/
def null : Span := ⟨"<null>", 0, 0⟩

/-- The place where the stretch begins. -/
def first (s : Span) : Position := ⟨s.file, s.start⟩

/-- The place just past the stretch. -/
def last (s : Span) : Position := ⟨s.file, s.stop⟩

/-- The stretch between two byte offsets. -/
def ofOffsets (file : String) (start stop : Nat) : Span :=
  ⟨file, UInt32.ofNat start, UInt32.ofNat stop⟩

end Span

end Frontend
