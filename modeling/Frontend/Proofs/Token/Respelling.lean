import Mathlib.Data.List.TakeWhile
import Frontend.Proofs.Token.Blanks
import Frontend.Proofs.Token.Munch

/-!
# Lexemes set apart

The lexemes of a source, written again with one blank between each and the next, are read as the
same lexemes. Their classes are the same too, except those of words: a word is a keyword or a truth
value only if the text behind it allows that, and a blank always does.

* `classify_lexeme`: a lexeme that is found somewhere is found whole where it stands alone.
* `unplaced_spaced`: the tokens of lexemes with blanks between them.
* `spacedText_spacedText`: written so a second time, the text stays as it is.
* `tokens_spacedText`: what this says of the tokens of a source.
-/

namespace Frontend

open Rule (isWordChar)
open Text (isBlank)

/-- The class of a lexeme with blanks around it, by the class that it has elsewhere. -/
def TokenClass.apart (k : TokenClass) (lexeme : String) : TokenClass :=
  if k = .identifier then
    if spellsKeyword lexeme then .keyword
    else if spellsTruth lexeme then .boolean
    else .identifier
  else k

/-- The token without its place, as it is read with blanks around it. -/
def Token.apart (t : Token) : TokenClass × String :=
  (t.tokenClass.apart t.lexeme, t.lexeme)

/-- The lexemes of the tokens with one blank between each and the next. -/
def spaced (tokens : List Token) : String :=
  " ".intercalate (tokens.map Token.lexeme)

/-- The lexemes of a source with one blank between each and the next. -/
def Reading.spacedText (r : Reading) (source : String) : String :=
  spaced ((r.tokens source).filter fun t => !t.isEnd)

variable {c : Char} {text tail lexeme : List Char} {k : TokenClass} {word : String}

/-! ## Lexemes that stand alone -/

theorem TokenClass.apart_of_ne (h : k ≠ .identifier) (lexeme : String) : k.apart lexeme = k :=
  if_neg h

theorem TokenClass.apart_ne_whitespace (h : k ≠ .whitespace) (lexeme : String) :
    k.apart lexeme ≠ .whitespace := by
  unfold TokenClass.apart
  split
  · split
    · decide
    · split <;> decide
  · exact h

/-- A number is a run of digits, or two of them with a point between. -/
theorem numeral_cases (text : List Char) :
    numeral text = text.takeWhile Char.isDigit ∨
      ∃ d rest, d.isDigit = true ∧
        numeral text =
          text.takeWhile Char.isDigit ++ '.' :: (d :: rest).takeWhile Char.isDigit := by
  rw [numeral]
  split
  · rename_i behind hPoint
    split
    · rename_i hFraction
      cases behind with
      | nil => cases hFraction
      | cons d rest => exact Or.inr ⟨d, rest, hFraction, rfl⟩
    · exact Or.inl rfl
  · exact Or.inl rfl

/-- A number that stands alone is read as far as it goes. -/
theorem numeral_numeral (text : List Char) : numeral (numeral text) = numeral text := by
  have hDigits : ∀ chars : List Char, ∀ d ∈ chars.takeWhile Char.isDigit, d.isDigit = true :=
    fun _ => List.all_eq_true.1 List.all_takeWhile
  rcases numeral_cases text with hWhole | ⟨d, rest, hd, hFraction⟩
  · rw [hWhole, numeral, List.takeWhile_eq_self_iff.2 (hDigits text),
      List.dropWhile_eq_nil_iff.2 (hDigits text)]
  · have hPart := List.takeWhile_eq_self_iff.2 (hDigits (d :: rest))
    rw [List.takeWhile_cons_of_pos hd] at hFraction hPart
    have hPoint : ∀ e ∈ ('.' :: d :: rest.takeWhile Char.isDigit).head?, e.isDigit = false := by
      rintro e ⟨⟩
      rfl
    have hFront := takeWhile_exact (hDigits text) hPoint
    rw [hFraction, numeral, hFront.1, hFront.2]
    simp only [List.head?_cons, Option.any_some, hd, if_true, hPart]

/-- A keyword is spelled unlike a truth value. -/
theorem spellsTruth_of_spellsKeyword (h : spellsKeyword word = true) :
    spellsTruth word = false := by
  obtain ⟨s, hClass, rfl⟩ := spellsKeyword_iff.1 h
  cases s with
  | ifWord | elseWord | forWord | varWord | returnWord | fnWord => decide
  | _ => cases hClass

/-- A word with blanks around it has the class that it has at the end of a text. -/
theorem apart_wordClass (word : String) (rest : List Char) :
    (wordClass word rest).apart word = wordClass word [] := by
  have hKeywordOver : keywordIsOver [] = true := rfl
  have hTruthOver : truthIsOver [] = true := rfl
  unfold wordClass
  rw [hKeywordOver, hTruthOver, Bool.and_true, Bool.and_true]
  cases hKeyword : spellsKeyword word with
  | true =>
    rw [spellsTruth_of_spellsKeyword hKeyword]
    cases keywordIsOver rest <;> simp [TokenClass.apart, hKeyword]
  | false =>
    cases hTruth : spellsTruth word with
    | true => cases truthIsOver rest <;> simp [TokenClass.apart, hKeyword, hTruth]
    | false => simp [TokenClass.apart, hKeyword, hTruth]

theorem classify_spelling (s : Symbol) :
    classify s.spelling.toList = some (s.tokenClass, s.spelling.toList) := by
  cases s <;> decide

/-- A lexeme that is found somewhere is found whole where it stands alone. The cases are those of
its first character. -/
theorem classify_lexeme (h : classify text = some (k, lexeme)) (hk : k ≠ .whitespace) :
    classify lexeme = some (k.apart (String.ofList lexeme), lexeme) := by
  obtain ⟨rest, rfl⟩ := classify_isPrefix h
  obtain ⟨c, tail, rfl⟩ := List.exists_cons_of_ne_nil (classify_ne_nil h)
  rw [List.cons_append] at h
  cases hBlank : isBlank c with
  | true =>
    rw [classify_run hBlank, Option.some.injEq, Prod.mk.injEq] at h
    exact absurd h.1.symm hk
  | false =>
    cases hDigit : c.isDigit with
    | true =>
      rw [classify_digit hDigit, Option.some.injEq, Prod.mk.injEq] at h
      obtain ⟨rfl, hNumeral⟩ := h
      rw [classify_digit hDigit, ← hNumeral, numeral_numeral,
        TokenClass.apart_of_ne (by decide)]
    | false =>
      cases hWord : isWordChar c with
      | true =>
        have hFirst : ∀ d ∈ ((c :: (tail ++ rest)).takeWhile isWordChar).head?,
            d.isDigit = false := by
          rw [List.takeWhile_cons_of_pos hWord]
          rintro d ⟨⟩
          exact hDigit
        have hFront := wordFront_takeWhile hWord (tail ++ rest)
        have hRead := classify_word hFront hFirst
        rw [List.takeWhile_append_dropWhile, h, Option.some.injEq, Prod.mk.injEq] at hRead
        obtain ⟨hClass, hLexeme⟩ := hRead
        rw [← hLexeme] at hClass hFront hFirst
        have hEnd : WordFront (c :: tail) [] := ⟨hFront.ne_nil, hFront.chars, nofun⟩
        have hAlone := classify_word hEnd hFirst
        rw [List.append_nil] at hAlone
        rw [hAlone, hClass, apart_wordClass]
      | false =>
        rw [classify_mark hBlank hWord, Option.map_eq_some_iff] at h
        obtain ⟨s, -, hPair⟩ := h
        rw [Prod.mk.injEq] at hPair
        obtain ⟨rfl, hLexeme⟩ := hPair
        rw [← hLexeme, classify_spelling, TokenClass.apart_of_ne (by cases s <;> decide)]

/-! ## Lexemes with blanks between them -/

variable {r : Reading}

theorem unplaced_alone {lexeme : String}
    (h : classify lexeme.toList = some (k, lexeme.toList)) (hk : k ≠ .whitespace) (offset : Nat) :
    (r.tokensOf offset (Piece.scan lexeme.toList)).map Token.unplaced =
      [(k, lexeme), (.endOfInput, "")] := by
  have hKept : r.token? k lexeme.toList offset (offset + Text.byteLength lexeme.toList) =
      some ⟨k, lexeme, .ofOffsets r.file offset (offset + Text.byteLength lexeme.toList)⟩ := by
    rw [Reading.token?, if_neg fun hBlank => hk hBlank.1, String.ofList_toList]
  rw [Piece.scan_of_classify h, List.drop_length, Piece.scan_nil, Reading.tokensOf, hKept]
  rfl

/-- Lexemes with blanks between them are read as each of them alone. -/
theorem unplaced_spaced (hSkip : r.skipBlanks = true) {ts : List Token}
    (hLexemes : ∀ t ∈ ts, t.tokenClass ≠ .whitespace ∧
      ∃ text, classify text = some (t.tokenClass, t.lexeme.toList)) (offset : Nat) :
    (r.tokensOf offset (Piece.scan (spaced ts).toList)).map Token.unplaced =
      ts.map Token.apart ++ [(.endOfInput, "")] := by
  induction ts generalizing offset with
  | nil =>
    have hText : (spaced []).toList = [] := by simp [spaced]
    rw [hText, Piece.scan_nil]
    rfl
  | cons t others ih =>
    obtain ⟨hBlank, text, hFound⟩ := hLexemes t List.mem_cons_self
    have hAlone := classify_lexeme hFound hBlank
    rw [String.ofList_toList] at hAlone
    have hRead := unplaced_alone (r := r) hAlone (TokenClass.apart_ne_whitespace hBlank t.lexeme)
    cases others with
    | nil =>
      rw [spaced, List.map_singleton, String.intercalate_singleton]
      exact hRead offset
    | cons u rest =>
      have hRest := ih (fun v hv => hLexemes v (List.mem_cons_of_mem t hv))
      have hBlankBetween : isBlank ' ' = true := by decide
      have hText : (spaced (t :: u :: rest)).toList =
          t.lexeme.toList ++ ' ' :: (spaced (u :: rest)).toList := by
        simp [spaced]
      rw [hText, tokensOf_break hSkip hBlankBetween, List.map_append, List.map_dropLast, hRead,
        hRest]
      rfl

/-! ## A source with its lexemes set apart -/

/-- Where the tokens of a source stand does not matter to the text. -/
theorem spacedText_eq (r : Reading) (source : String) :
    r.spacedText source =
      " ".intercalate (((r.tokens source).map Token.unplaced).dropLast.map Prod.snd) := by
  rw [Reading.spacedText, Reading.tokens, ← dropLast_tokensOf, spaced, ← List.map_dropLast,
    List.map_map]
  rfl

theorem unplaced_tokens_spacedText (hSkip : r.skipBlanks = true) (source : String) :
    (r.tokens (r.spacedText source)).map Token.unplaced = (r.tokens source).map Token.apart := by
  obtain ⟨written, hTokens, hWritten⟩ := tokensOf_eq r 0 source.toList
  have hLexemes : ∀ t ∈ written, t.tokenClass ≠ .whitespace ∧
      ∃ text, classify text = some (t.tokenClass, t.lexeme.toList) := by
    intro t ht
    have hMem : t ∈ r.tokensOf 0 (Piece.scan source.toList) := by
      rw [hTokens]
      exact List.mem_append_left _ ht
    have hEnd : t.isEnd = false := Bool.eq_false_iff.2 (hWritten t ht)
    exact ⟨not_whitespace_of_mem_tokensOf hSkip hMem, exists_classify_of_mem_tokensOf hMem hEnd⟩
  have hText : r.spacedText source = spaced written := by
    rw [Reading.spacedText, Reading.tokens, ← dropLast_tokensOf, hTokens, List.dropLast_concat]
  rw [hText, Reading.tokens, Reading.tokens, unplaced_spaced hSkip hLexemes, hTokens,
    List.map_append]
  rfl

theorem spacedText_spacedText (hSkip : r.skipBlanks = true) (source : String) :
    r.spacedText (r.spacedText source) = r.spacedText source := by
  have hLexemes : ((r.tokens source).map Token.apart).dropLast.map Prod.snd =
      ((r.tokens source).map Token.unplaced).dropLast.map Prod.snd := by
    rw [← List.map_dropLast, ← List.map_dropLast, List.map_map, List.map_map]
    rfl
  rw [spacedText_eq r (r.spacedText source), unplaced_tokens_spacedText hSkip, hLexemes,
    ← spacedText_eq]

/-- The lexemes of a source, with one blank between each and the next, are read as the same lexemes.
Their classes are those of lexemes with blanks around them: a name that is spelled like a keyword or
a truth value becomes one, and no other class changes. When they are written so a second time,
nothing changes any more, not even their places. -/
theorem tokens_spacedText (file : String) (verbose : Bool) (source : String) :
    let r : Reading := ⟨file, true, verbose⟩
    (r.tokens (r.spacedText source)).map Token.unplaced = (r.tokens source).map Token.apart ∧
      r.tokens (r.spacedText (r.spacedText source)) = r.tokens (r.spacedText source) := by
  intro r
  refine ⟨unplaced_tokens_spacedText rfl source, ?_⟩
  rw [spacedText_spacedText rfl]

/-- A name that becomes a keyword, one that becomes a truth value, and digits without a fraction. -/
example : Reading.default.spacedText "if;true(1.x" = "if ; true ( 1 x" ∧
    (Reading.default.tokens "if ; true ( 1 x").map Token.tokenClass =
      [.keyword, .semicolon, .boolean, .openBracket, .number, .identifier, .endOfInput] := by
  decide +kernel

end Frontend
