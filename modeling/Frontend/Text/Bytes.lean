/-!
# Byte lengths

Offsets into a source count the bytes of its UTF-8 form, while the text itself is a list of
characters. This module measures such a list in bytes and cuts it at a byte offset.

* `byteLength_append`: lengths add up.
* `dropBytes?_eq_some_iff`: a cut succeeds exactly at the boundaries between characters, the two ends
  of the text included, and leaves what follows the boundary.
-/

namespace Frontend.Text

/-- The number of bytes of the text in UTF-8. -/
def byteLength : List Char → Nat
  | [] => 0
  | c :: rest => c.utf8Size + byteLength rest

@[simp] theorem byteLength_nil : byteLength [] = 0 := rfl

@[simp] theorem byteLength_cons (c : Char) (rest : List Char) :
    byteLength (c :: rest) = c.utf8Size + byteLength rest := rfl

@[simp] theorem byteLength_append (a b : List Char) :
    byteLength (a ++ b) = byteLength a + byteLength b := by
  induction a with
  | nil => simp
  | cons c rest ih => simp [ih, Nat.add_assoc]

theorem byteLength_eq_zero_iff {text : List Char} : byteLength text = 0 ↔ text = [] := by
  cases text with
  | nil => simp
  | cons c rest => simp [Nat.ne_of_gt c.utf8Size_pos]

/-- The text after its first `n` bytes. There is none if `n` lies inside a character or past the
end of the text. -/
def dropBytes? : List Char → Nat → Option (List Char)
  | text, 0 => some text
  | [], _ + 1 => none
  | c :: rest, n + 1 => if c.utf8Size ≤ n + 1 then dropBytes? rest (n + 1 - c.utf8Size) else none

theorem dropBytes?_eq_some_iff {text rest : List Char} {n : Nat} :
    dropBytes? text n = some rest ↔ ∃ front, text = front ++ rest ∧ byteLength front = n := by
  induction text generalizing n with
  | nil =>
    cases n with
    | zero =>
      simp only [dropBytes?, Option.some.injEq]
      constructor
      · rintro rfl
        exact ⟨[], rfl, rfl⟩
      · rintro ⟨front, hText, -⟩
        exact (List.nil_eq_append_iff.1 hText).2.symm
    | succ n =>
      simp only [dropBytes?, reduceCtorEq, false_iff]
      rintro ⟨front, hText, hLength⟩
      rw [(List.nil_eq_append_iff.1 hText).1] at hLength
      simp at hLength
  | cons c tail ih =>
    have hc := c.utf8Size_pos
    cases n with
    | zero =>
      simp only [dropBytes?, Option.some.injEq, byteLength_eq_zero_iff]
      constructor
      · rintro rfl
        exact ⟨[], rfl, rfl⟩
      · rintro ⟨front, hText, rfl⟩
        simpa using hText
    | succ n =>
      simp only [dropBytes?]
      split
      · rename_i hFits
        rw [ih]
        constructor
        · rintro ⟨front, rfl, hLength⟩
          exact ⟨c :: front, rfl, by simp only [byteLength_cons]; omega⟩
        · rintro ⟨front, hText, hLength⟩
          cases front with
          | nil => simp at hLength
          | cons d front =>
            simp only [List.cons_append, List.cons.injEq] at hText
            obtain ⟨rfl, rfl⟩ := hText
            simp only [byteLength_cons] at hLength
            exact ⟨front, rfl, by omega⟩
      · rename_i hFits
        simp only [reduceCtorEq, false_iff]
        rintro ⟨front, hText, hLength⟩
        cases front with
        | nil => simp at hLength
        | cons d front =>
          simp only [List.cons_append, List.cons.injEq] at hText
          obtain ⟨rfl, rfl⟩ := hText
          simp only [byteLength_cons] at hLength
          omega

end Frontend.Text
