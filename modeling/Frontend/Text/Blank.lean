/-!
# Blank characters

The characters that only separate: those with the Unicode property `White_Space`. A blank run is
dropped between tokens, ends a keyword, and is trimmed from the end of a reported line.

* `isBlank_of_isWhitespace`: every character that core counts as white space is blank (core's class
  holds four ASCII characters, this one 25 characters of all planes).
-/

namespace Frontend.Text

/-- The code points with the property `White_Space`, as closed ranges. -/
def blankRanges : List (Nat × Nat) :=
  [(0x09, 0x0d), (0x20, 0x20), (0x85, 0x85), (0xa0, 0xa0), (0x1680, 0x1680), (0x2000, 0x200a),
    (0x2028, 0x2029), (0x202f, 0x202f), (0x205f, 0x205f), (0x3000, 0x3000)]

/-- Whether one of the closed ranges holds the character. -/
def inRanges (ranges : List (Nat × Nat)) (c : Char) : Bool :=
  ranges.any fun r => r.1 ≤ c.toNat && c.toNat ≤ r.2

/-- Whether the character has the property `White_Space`. -/
def isBlank (c : Char) : Bool :=
  inRanges blankRanges c

theorem isBlank_of_isWhitespace {c : Char} (h : c.isWhitespace = true) : isBlank c = true := by
  simp only [Char.isWhitespace, Bool.or_eq_true, decide_eq_true_eq] at h
  rcases h with ((h | h) | h) | h <;> subst h <;> decide

end Frontend.Text
