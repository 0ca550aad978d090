import Frontend.Text.Bytes
import Frontend.Token.Rule

/-!
# Cutting a text into pieces

From its start on a text is cut into lexemes, as the lexical rules say. Where no rule accepts, a
single stray character is cut off, and the cutting goes on behind it. Nothing is lost on the way:

* `flatMap_text_scan`: the pieces put together are the text.
* `scan_of_classify`, `scan_of_stray`: how the cutting goes on at each place.
-/

namespace Frontend

/-- A piece of a text: a lexeme, or a character at which no lexical rule accepts. -/
inductive Piece where
  | lexeme (tokenClass : TokenClass) (text : List Char)
  | stray (c : Char)
  deriving DecidableEq

namespace Piece

/-- The characters of the piece. -/
def text : Piece → List Char
  | lexeme _ text => text
  | stray c => [c]

theorem length_drop_of_classify {c : Char} {rest lexeme : List Char} {k : TokenClass}
    (h : classify (c :: rest) = some (k, lexeme)) :
    ((c :: rest).drop lexeme.length).length < (c :: rest).length := by
  have hPos : 0 < lexeme.length := List.length_pos_iff.2 (classify_ne_nil h)
  simp only [List.length_drop, List.length_cons]
  omega

/-- The pieces of a text. -/
def scan : List Char → List Piece
  | [] => []
  | c :: rest =>
    match _h : classify (c :: rest) with
    | some (k, found) => lexeme k found :: scan ((c :: rest).drop found.length)
    | none => stray c :: scan rest
termination_by text => text.length
decreasing_by
  · exact length_drop_of_classify _h
  · exact Nat.lt_succ_self rest.length

@[simp] theorem scan_nil : scan [] = [] := by
  rw [scan]

theorem scan_of_classify {text found : List Char} {k : TokenClass}
    (h : classify text = some (k, found)) :
    scan text = lexeme k found :: scan (text.drop found.length) := by
  cases text with
  | nil =>
    obtain ⟨rest, hRest⟩ := classify_isPrefix h
    exact absurd (List.append_eq_nil_iff.1 hRest).1 (classify_ne_nil h)
  | cons c rest =>
    rw [scan]
    split
    · rename_i k' found' hFound
      rw [h] at hFound
      cases hFound
      rfl
    · rename_i hNone
      rw [h] at hNone
      cases hNone

theorem scan_of_stray {c : Char} {rest : List Char} (h : classify (c :: rest) = none) :
    scan (c :: rest) = stray c :: scan rest := by
  rw [scan]
  split
  · rename_i k found hFound
    rw [h] at hFound
    cases hFound
  · rfl

theorem flatMap_text_scan (source : List Char) : (scan source).flatMap text = source := by
  fun_induction scan source with
  | case1 => rfl
  | case2 c rest k found h ih =>
    obtain ⟨behind, hBehind⟩ := classify_isPrefix h
    rw [List.flatMap_cons, ih, ← hBehind]
    simp [text]
  | case3 c rest h ih =>
    rw [List.flatMap_cons, ih]
    rfl

end Piece

end Frontend
