/-!
# Decimal numbers

Numbers are written with the fewest decimal digits, a minus sign in front of the negative ones. A
signed 64-bit number is read from an optional sign and at least one digit, leading zeros allowed;
a value outside the 64-bit range is refused.
-/

namespace Frontend.Decimal

/-- The digit that stands for a number below ten. -/
def digit (n : Nat) : Char :=
  Char.ofNat (48 + n)

/-- The decimal digits of a number, the most significant first. -/
def digits (n : Nat) : List Char :=
  if n < 10 then [digit n] else digits (n / 10) ++ [digit (n % 10)]

/-- The decimal text of a natural number. -/
def ofNat (n : Nat) : String :=
  String.ofList (digits n)

/-- The decimal text of an integer. -/
def ofInt (z : Int) : String :=
  if z < 0 then "-" ++ ofNat z.natAbs else ofNat z.natAbs

/-- The number that a list of digits stands for. -/
def value (ds : List Char) : Nat :=
  ds.foldl (fun sum d => 10 * sum + (d.toNat - 48)) 0

/-- Reads a number from its digits, refusing the empty text and any other character. -/
def toNat? (ds : List Char) : Option Nat :=
  if ds ≠ [] ∧ ds.all Char.isDigit then some (value ds) else none

/-- Reads an integer, which may have a plus or a minus sign. -/
def toInt? : List Char → Option Int
  | '-' :: ds => (toNat? ds).map fun n => -(n : Int)
  | '+' :: ds => (toNat? ds).map Int.ofNat
  | ds => (toNat? ds).map Int.ofNat

/-- Reads a signed 64-bit number, refusing a value outside its range. -/
def toInt64? (text : String) : Option Int64 :=
  (toInt? text.toList).bind fun z =>
    if Int64.minValue.toInt ≤ z ∧ z ≤ Int64.maxValue.toInt then some (Int64.ofInt z) else none

end Frontend.Decimal
