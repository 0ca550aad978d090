import Mathlib.Data.List.DropRight
import Frontend.Text.Line

/-!
# Where a place lies

A byte offset below the length of a text lies on one line, and that line is found: what stands
before it is whole lines, and its number counts them.

The lines can also be gone through by a loop that carries the number and the byte offset of the line
it has come to, after a test that the offset is below the length of the text. The loop then always
stops at a line; it never runs out of lines.

* `lined_lines`: the shape of the lines of a text.
* `Line.seek`, `Line.seek_eq_search`: the loop, and that it finds what the search finds.
* `Line.LiesIn`: a line with what stands before and behind it.
* `Line.location_exact`: which line is found for an offset, and when there is none.
* `Line.LiesIn.cut`: where the text is cut at the place, so is the line.
* `Line.last?_of_ne_nil`: what is left when the newlines at the end of a text are taken away has a
  last line.
-/

namespace Frontend.Text

/-! ## The shape of the lines -/

/-- All lines end with their only newline, but the last one may lack it. None is empty. -/
inductive Lined : List (List Char) → Prop where
  | nil : Lined []
  | last {line : List Char} (hNonempty : line ≠ []) (hOpen : '\n' ∉ line) : Lined [line]
  | cons {front : List Char} {others : List (List Char)} (hFront : '\n' ∉ front)
      (hOthers : Lined others) : Lined ((front ++ ['\n']) :: others)

theorem lined_lines (text : List Char) : Lined (lines text) := by
  induction text with
  | nil => exact .nil
  | cons c rest ih =>
    rw [lines]
    split
    · rename_i hNewline
      rw [hNewline]
      exact .cons List.not_mem_nil ih
    · rename_i hc
      have hOther : '\n' ≠ c := fun h => hc h.symm
      split
      · exact .last (List.cons_ne_nil c []) (by simpa using hOther)
      · rename_i line others hLines
        rw [hLines] at ih
        cases ih with
        | last _ hOpen =>
          exact .last (List.cons_ne_nil c line) (List.not_mem_cons_of_ne_of_not_mem hOther hOpen)
        | cons hFront hOthers =>
          exact .cons (List.not_mem_cons_of_ne_of_not_mem hOther hFront) hOthers

namespace Line

/-- The line with what stands before and behind it in a text: whole lines before it, and nothing
behind it if it lacks its newline. The number counts the newlines before it. -/
structure LiesIn (line : Line) (text before after : List Char) : Prop where
  spelled : text = before ++ line.text ++ after
  begins : before = [] ∨ before.getLast? = some '\n'
  /-- A newline is at most its last character. -/
  single : '\n' ∉ line.text.dropLast
  ends : line.text.getLast? ≠ some '\n' → after = []
  number : line.number = 1 + before.count '\n'

end Line

variable {front rest : List (List Char)} {text line : List Char} {number offset : Nat}

/-- As many newlines stand before a line as there are lines before it. -/
theorem Lined.split (h : Lined (front ++ line :: rest)) :
    (front.flatten = [] ∨ front.flatten.getLast? = some '\n') ∧
      front.flatten.count '\n' = front.length ∧ Lined (line :: rest) := by
  induction front with
  | nil => exact ⟨Or.inl rfl, rfl, h⟩
  | cons first others ih =>
    generalize hAll : first :: others ++ line :: rest = all at h
    cases h with
    | nil => cases hAll
    | last => simp at hAll
    | @cons start behind hStart hBehind =>
      obtain ⟨rfl, rfl⟩ := List.cons.inj hAll
      obtain ⟨hBegins, hCount, hLine⟩ := ih hBehind
      refine ⟨Or.inr ?_, ?_, hLine⟩
      · rcases hBegins with hNone | hNewline
        · rw [List.flatten_cons, hNone, List.append_nil, List.getLast?_concat]
        · rw [List.flatten_cons, List.getLast?_append, hNewline]
          rfl
      · rw [List.flatten_cons, List.count_append, List.count_append, hCount,
          List.count_eq_zero.2 hStart, List.length_cons]
        simp only [List.count_singleton_self]
        omega

theorem Lined.head (h : Lined (line :: rest)) :
    line ≠ [] ∧ '\n' ∉ line.dropLast ∧ (line.getLast? ≠ some '\n' → rest = []) := by
  cases h with
  | last hNonempty hOpen =>
    exact ⟨hNonempty, fun hMem => hOpen (List.dropLast_subset line hMem), fun _ => rfl⟩
  | cons hFront hOthers =>
    refine ⟨by simp, by simpa using hFront, ?_⟩
    intro hNot
    exact absurd List.getLast?_concat hNot

/-- A line of a text, by the lines before and behind it. -/
theorem liesIn_of_lines (h : lines text = front ++ line :: rest) (column : Nat) :
    (Line.mk (1 + front.length) line column).LiesIn text front.flatten rest.flatten := by
  have hLined := lined_lines text
  rw [h] at hLined
  obtain ⟨hBegins, hCount, hHead⟩ := hLined.split
  obtain ⟨-, hSingle, hEnds⟩ := hHead.head
  refine ⟨?_, hBegins, hSingle, fun hOpen => by rw [hEnds hOpen]; rfl, by rw [hCount]⟩
  rw [← flatten_lines text, h]
  simp

namespace Line

/-! ## The search -/

/-- The search stops at the first line that reaches past the offset. -/
theorem search_eq_some {ls : List (List Char)} {found : Line}
    (h : search number ls offset = some found) :
    ∃ front rest, ls = front ++ found.text :: rest ∧ found.number = number + front.length ∧
      byteLength front.flatten + found.column = offset ∧
      found.column < byteLength found.text := by
  induction ls generalizing number offset with
  | nil => cases h
  | cons line others ih =>
    rw [search] at h
    split at h
    · rename_i hHere
      cases h
      exact ⟨[], others, rfl, rfl, Nat.zero_add offset, hHere⟩
    · rename_i hBehind
      obtain ⟨front, rest, rfl, hNumber, hOffset, hColumn⟩ := ih h
      refine ⟨line :: front, rest, rfl, ?_, ?_, hColumn⟩
      · rw [hNumber, List.length_cons]
        omega
      · rw [List.flatten_cons, byteLength_append]
        omega

theorem search_eq_none_iff {ls : List (List Char)} :
    search number ls offset = none ↔ byteLength ls.flatten ≤ offset := by
  induction ls generalizing number offset with
  | nil => simp [search]
  | cons line others ih =>
    rw [search, List.flatten_cons, byteLength_append]
    split
    · rename_i hHere
      simp only [reduceCtorEq, false_iff]
      omega
    · rename_i hBehind
      rw [ih]
      omega

theorem locate?_eq_none_iff : locate? text offset = none ↔ byteLength text ≤ offset := by
  rw [locate?, search_eq_none_iff, flatten_lines]

theorem locate?_eq_some {found : Line} (h : locate? text offset = some found) :
    ∃ before after, found.LiesIn text before after ∧
      byteLength before + found.column = offset ∧ found.column < byteLength found.text := by
  obtain ⟨front, rest, hLines, hNumber, hOffset, hColumn⟩ := search_eq_some h
  refine ⟨front.flatten, rest.flatten, ?_, hOffset, hColumn⟩
  have hLies := liesIn_of_lines hLines found.column
  rwa [← hNumber] at hLies

/-! ## The loop -/

/-- Looks for the offset by a loop over the lines, the first of which has the given number and
begins at the given offset. -/
def seek (offset : Nat) : Nat → Nat → List (List Char) → Option Line
  | _, _, [] => none
  | number, start, line :: others =>
    let stop := start + byteLength line
    if start ≤ offset ∧ offset < stop then some ⟨number, line, offset - start⟩
    else seek offset (number + 1) stop others

/-- The invariant of the loop: it has not come past the offset. -/
theorem seek_eq_search {start : Nat} (ls : List (List Char)) (h : start ≤ offset) :
    seek offset number start ls = search number ls (offset - start) := by
  induction ls generalizing number start with
  | nil => rfl
  | cons line others ih =>
    rw [seek, search]
    by_cases hHere : offset - start < byteLength line
    · rw [if_pos hHere, if_pos ⟨h, by omega⟩]
    · rw [if_neg hHere, if_neg (by omega), ih (by omega), Nat.sub_add_eq]

/-- Which line is found for an offset: none exactly if the offset is not below the length of the
text, otherwise the line that holds it. The same is found by the test and the loop, and the loop
does not run out of lines. -/
theorem location_exact (text : List Char) (offset : Nat) :
    (locate? text offset = none ↔ byteLength text ≤ offset) ∧
      (∀ found, locate? text offset = some found →
        ∃ before after, found.LiesIn text before after ∧
          byteLength before + found.column = offset ∧ found.column < byteLength found.text) ∧
      locate? text offset =
        (if byteLength text ≤ offset then none else seek offset 1 0 (lines text)) ∧
      (offset < byteLength text → seek offset 1 0 (lines text) ≠ none) := by
  have hSeek : seek offset 1 0 (lines text) = locate? text offset :=
    seek_eq_search (lines text) (Nat.zero_le offset)
  refine ⟨locate?_eq_none_iff, fun found => locate?_eq_some, ?_, ?_⟩
  · rw [hSeek]
    split
    · rename_i hPast
      exact locate?_eq_none_iff.2 hPast
    · rfl
  · intro hInside hNone
    rw [hSeek] at hNone
    exact Nat.not_le_of_lt hInside (locate?_eq_none_iff.1 hNone)

/-- A place on the last line, behind a character of two bytes and an empty line. -/
theorem location_exact_accented :
    locate? "é\n\nvar x".toList 8 = some ⟨3, "var x".toList, 4⟩ ∧
      8 < byteLength "é\n\nvar x".toList ∧
      (∃ before after, (Line.mk 3 "var x".toList 4).LiesIn "é\n\nvar x".toList before after ∧
        byteLength before + 4 = 8 ∧ 4 < byteLength "var x".toList) ∧
      seek 8 1 0 (lines "é\n\nvar x".toList) ≠ none :=
  have hFound : locate? "é\n\nvar x".toList 8 = some ⟨3, "var x".toList, 4⟩ := by decide
  have hInside : 8 < byteLength "é\n\nvar x".toList := by decide
  have hExact := location_exact "é\n\nvar x".toList 8
  ⟨hFound, hInside, hExact.2.1 _ hFound, hExact.2.2.2 hInside⟩

/-! ## The place on its line -/

/-- Of two cuts of a text, the one that is no further on leaves what is between them. -/
theorem exists_between {before behind before' behind' : List Char}
    (h : before ++ behind = before' ++ behind') (hLe : byteLength before ≤ byteLength before') :
    ∃ between, before' = before ++ between ∧ behind = between ++ behind' := by
  rcases List.append_eq_append_iff.1 h with ⟨between, hFront, hBehind⟩ | ⟨more, rfl, rfl⟩
  · exact ⟨between, hFront, hBehind⟩
  · rw [byteLength_append] at hLe
    have hNone : more = [] := byteLength_eq_zero_iff.1 (by omega)
    rw [hNone]
    exact ⟨[], by simp, by simp⟩

/-- A cut of the text at a place on the line cuts the line there. No newline is in front of the
place. -/
theorem LiesIn.cut {found : Line} {before after text' behind : List Char}
    (h : found.LiesIn (text' ++ behind) before after)
    (hPlace : byteLength before + found.column = byteLength text')
    (hInside : found.column < byteLength found.text) :
    ∃ front tail, text' = before ++ front ∧ found.text = front ++ tail ∧ behind = tail ++ after ∧
      tail ≠ [] ∧ byteLength front = found.column ∧ '\n' ∉ front := by
  have hSpelled : before ++ (found.text ++ after) = text' ++ behind := by
    rw [h.spelled, List.append_assoc]
  obtain ⟨front, rfl, hLine⟩ := exists_between hSpelled (by omega)
  rw [byteLength_append] at hPlace
  have hColumn : byteLength front = found.column := by omega
  obtain ⟨tail, hText, hBehind⟩ := exists_between hLine.symm (by omega)
  have hTail : tail ≠ [] := by
    rintro rfl
    rw [hText, List.append_nil] at hInside
    omega
  refine ⟨front, tail, rfl, hText, hBehind, hTail, hColumn, ?_⟩
  intro hMem
  refine h.single ?_
  rw [hText, List.dropLast_append_of_ne_nil hTail]
  exact List.mem_append_left _ hMem

/-! ## The last line -/

theorem trimNewlines_append (text : List Char) :
    ∃ newlines, text = trimNewlines text ++ newlines ∧ ∀ c ∈ newlines, c = '\n' := by
  refine ⟨text.rtakeWhile (· = '\n'), List.rdropWhile_append_rtakeWhile.symm, ?_⟩
  intro c hc
  simpa using List.mem_rtakeWhile_imp hc

theorem getLast?_trimNewlines (text : List Char) : (trimNewlines text).getLast? ≠ some '\n' := by
  intro hLast
  obtain ⟨hNonempty, hNewline⟩ := List.mem_getLast?_eq_getLast hLast
  exact List.rdropWhile_last_not (· = '\n') text hNonempty (decide_eq_true hNewline.symm)

/-- Of a text that is not only newlines, the last line is found when those at its end are taken
away. It has no newline of its own, and the place is just past its last character. -/
theorem last?_of_ne_nil (h : trimNewlines text ≠ []) :
    ∃ found before, last? text = some found ∧ found.LiesIn (trimNewlines text) before [] ∧
      found.text ≠ [] ∧ '\n' ∉ found.text ∧ found.column = byteLength found.text := by
  have hNonempty : lines (trimNewlines text) ≠ [] := by
    intro hNone
    have hText := flatten_lines (trimNewlines text)
    rw [hNone] at hText
    exact h hText.symm
  obtain ⟨front, line, hLines⟩ : ∃ front line, lines (trimNewlines text) = front ++ [line] :=
    ⟨_, _, (List.dropLast_concat_getLast hNonempty).symm⟩
  have hLies := liesIn_of_lines hLines (byteLength line)
  have hSpelled : trimNewlines text = front.flatten ++ line := by
    rw [hLies.spelled]
    simp
  have hLined := lined_lines (trimNewlines text)
  rw [hLines] at hLined
  obtain ⟨hLine, -, -⟩ := hLined.split.2.2.head
  have hOpen : line.getLast? ≠ some '\n' := by
    intro hLast
    refine getLast?_trimNewlines text ?_
    rw [hSpelled, List.getLast?_append, hLast]
    rfl
  refine ⟨⟨1 + front.length, line, byteLength line⟩, front.flatten, ?_, hLies, hLine, ?_, rfl⟩
  · rw [last?, hLines]
    simp [Nat.add_comm]
  · intro hMem
    rw [← List.dropLast_concat_getLast hLine, List.mem_append, List.mem_singleton] at hMem
    rcases hMem with hFront | hLast
    · exact hLies.single hFront
    · exact hOpen (by rw [List.getLast?_eq_some_getLast hLine, ← hLast])

end Line

end Frontend.Text
