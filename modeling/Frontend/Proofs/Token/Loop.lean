import Frontend.Token.Cursor

/-!
# The reading loop

A source can be read by a loop over its byte offsets. In each round the loop looks at what stands
behind the cursor and moves the cursor on: over a lexeme, which becomes a token unless it is
dropped, or over one stray character. Nothing can be read past the end of the source or inside a
character, so a round may fail. This module says what the loop has to do with the token stream.

* `round?_forward`: a round that succeeds moves the cursor forward. So the loop ends.
* `loop?_eq`: from every cursor the loop fails exactly where there is no token stream, and otherwise
  gives its tokens and its log.
* `loop?_start`: from the start of a source no round fails.
-/

namespace Frontend

open Text (byteLength dropBytes? dropBytes?_eq_some_iff)

theorem Text.byteLength_pos {text : List Char} (h : text ≠ []) : 0 < byteLength text :=
  Nat.pos_of_ne_zero fun hZero => h (Text.byteLength_eq_zero_iff.1 hZero)

/-! ## What is recorded about a place -/

theorem Piece.text_ne_nil_of_mem_scan {source : List Char} {piece : Piece}
    (h : piece ∈ Piece.scan source) : piece.text ≠ [] := by
  fun_induction Piece.scan source with
  | case1 => cases h
  | case2 c rest k found hFound ih =>
    rcases List.mem_cons.1 h with rfl | h
    · exact classify_ne_nil hFound
    · exact ih h
  | case3 c rest hNone ih =>
    rcases List.mem_cons.1 h with rfl | h
    · exact List.cons_ne_nil c []
    · exact ih h

/-- If no piece is empty, the first `n` characters lie in the first `n` pieces. -/
theorem Piece.take_flatMap_take {pieces : List Piece} (n : Nat)
    (hPieces : ∀ piece ∈ pieces, piece.text ≠ []) :
    ((pieces.take n).flatMap Piece.text).take n = (pieces.flatMap Piece.text).take n := by
  induction pieces generalizing n with
  | nil => simp
  | cons piece rest ih =>
    cases n with
    | zero => simp
    | succ n =>
      have hPos : 0 < piece.text.length :=
        List.length_pos_iff.2 (hPieces piece List.mem_cons_self)
      -- The first piece gives at least one character, so `n` pieces are enough for the others.
      have ih := ih n fun p hp => hPieces p (List.mem_cons_of_mem piece hp)
      have hShorter := congrArg (List.take (n + 1 - piece.text.length)) ih
      rw [List.take_take, List.take_take, Nat.min_eq_left (by omega)] at hShorter
      rw [List.take_succ_cons, List.flatMap_cons, List.flatMap_cons, List.take_append,
        List.take_append, hShorter]

theorem Reading.preview_scan (rest : List Char) :
    Reading.preview (Piece.scan rest) = rest.take 20 := by
  rw [Reading.preview, Piece.take_flatMap_take 20 fun _ h => Piece.text_ne_nil_of_mem_scan h,
    Piece.flatMap_text_scan]

namespace Cursor

/-! ## A round -/

/-- What is recorded about the text behind the cursor before it is read. -/
def recordsBefore (c : Cursor) (rest : List Char) : List Record :=
  if c.reading.verbose then
    [⟨.trace, "lexing " ++ Text.Quoted.text (String.ofList (rest.take 20)) ++ "..."⟩]
  else []

/-- Moves the cursor over a lexeme, which becomes a token unless it is dropped. -/
def passOver (c : Cursor) (k : TokenClass) (lexeme : List Char) : Cursor :=
  let next := c.offset + byteLength lexeme
  { c with offset := next, pushed := c.pushed ++ (c.reading.token? k lexeme c.offset next).toList }

/-- One round of the loop. It fails if nothing can be read at the cursor. -/
def round? (c : Cursor) : Option (Cursor × List Record) :=
  match c.remainder? with
  | none => none
  | some [] => none
  | some (d :: behind) =>
    match classify (d :: behind) with
    | some (k, lexeme) =>
      some (c.passOver k lexeme, c.recordsBefore (d :: behind) ++
        if c.reading.verbose then [Reading.recordLexeme k lexeme] else [])
    | none =>
      some (c.advance d.utf8Size, c.recordsBefore (d :: behind) ++
        [Reading.recordStray d c.offset])

/-- A round cuts a lexeme off the text behind the cursor, or a stray character. -/
theorem round?_cases {c next : Cursor} {records : List Record}
    (h : c.round? = some (next, records)) :
    ∃ rest, c.remainder? = some rest ∧
      ((∃ k lexeme, classify rest = some (k, lexeme) ∧ next = c.passOver k lexeme ∧
          records = c.recordsBefore rest ++
            if c.reading.verbose then [Reading.recordLexeme k lexeme] else []) ∨
        ∃ d behind, rest = d :: behind ∧ classify rest = none ∧ next = c.advance d.utf8Size ∧
          records = c.recordsBefore rest ++ [Reading.recordStray d c.offset]) := by
  unfold round? at h
  split at h
  · cases h
  · cases h
  · rename_i d behind hRest
    refine ⟨d :: behind, hRest, ?_⟩
    split at h
    · rename_i k lexeme hFound
      cases h
      exact Or.inl ⟨k, lexeme, hFound, rfl, rfl⟩
    · rename_i hNone
      cases h
      exact Or.inr ⟨d, behind, rfl, hNone, rfl, rfl⟩

theorem round?_forward {c next : Cursor} {records : List Record}
    (h : c.round? = some (next, records)) : next.source = c.source ∧ c.offset < next.offset := by
  obtain ⟨rest, -, ⟨k, lexeme, hFound, rfl, -⟩ | ⟨d, behind, -, -, rfl, -⟩⟩ := round?_cases h
  · have hPos := Text.byteLength_pos (classify_ne_nil hFound)
    exact ⟨rfl, by simp only [passOver]; omega⟩
  · have hPos := d.utf8Size_pos
    exact ⟨rfl, by simp only [advance]; omega⟩

/-! ## The loop -/

/-- Reads the source from the cursor on, round by round, until the cursor has reached the end. Gives
the tokens and what was recorded, or nothing if a round fails. -/
def loop? (c : Cursor) : Option (List Token × List Record) :=
  if _hEnd : c.atEnd then some (c.pushed ++ [.endOfInput c.reading.file c.offset], [])
  else
    match _h : c.round? with
    | none => none
    | some (next, records) => (loop? next).map fun (tokens, log) => (tokens, records ++ log)
termination_by byteLength c.source.toList - c.offset
decreasing_by
  obtain ⟨hSource, hOffset⟩ := round?_forward _h
  simp only [atEnd, decide_eq_true_eq] at _hEnd
  rw [hSource]
  omega

theorem remainder?_forward {c next : Cursor} {front rest : List Char}
    (h : c.remainder? = some (front ++ rest)) (hSource : next.source = c.source)
    (hOffset : next.offset = c.offset + byteLength front) : next.remainder? = some rest := by
  obtain ⟨before, hText, hLength⟩ := dropBytes?_eq_some_iff.1 h
  refine dropBytes?_eq_some_iff.2 ⟨before ++ front, ?_, ?_⟩
  · rw [hSource, hText, List.append_assoc]
  · rw [Text.byteLength_append, hLength, hOffset]

/-- Where the text behind the cursor is known, so are the pieces: at the end both are empty. -/
theorem pieces?_of_remainder {c : Cursor} {rest : List Char} (h : c.remainder? = some rest) :
    c.pieces? = some (Piece.scan rest) := by
  unfold pieces?
  split
  · rename_i hEnd
    obtain ⟨before, hText, hLength⟩ := dropBytes?_eq_some_iff.1 h
    simp only [atEnd, decide_eq_true_eq, hText, Text.byteLength_append] at hEnd
    have hRest : rest = [] := Text.byteLength_eq_zero_iff.1 (by omega)
    rw [hRest, Piece.scan_nil]
  · rw [h]
    rfl

theorem remainder?_ne_nil {c : Cursor} (hEnd : ¬ c.atEnd = true) : c.remainder? ≠ some [] := by
  intro h
  obtain ⟨before, hText, hLength⟩ := dropBytes?_eq_some_iff.1 h
  simp only [atEnd, decide_eq_true_eq, hText, List.append_nil, hLength] at hEnd
  exact hEnd (Nat.le_refl _)

/-- A round that fails stands inside a character. -/
theorem remainder?_of_round?_eq_none {c : Cursor} (hEnd : ¬ c.atEnd = true)
    (h : c.round? = none) : c.remainder? = none := by
  unfold round? at h
  split at h
  · assumption
  · rename_i hRest
    exact absurd hRest (remainder?_ne_nil hEnd)
  · split at h <;> cases h

/-- A round gives the next token and the next records of the stream. -/
theorem stream_of_round? {c next : Cursor} {records : List Record}
    (h : c.round? = some (next, records)) :
    c.tokens? = next.tokens? ∧ c.log = records ++ next.log := by
  obtain ⟨rest, hRest, ⟨k, lexeme, hFound, rfl, rfl⟩ | ⟨d, behind, rfl, hNone, rfl, rfl⟩⟩ :=
    round?_cases h
  · obtain ⟨behind, rfl⟩ := classify_isPrefix hFound
    have hNext : (c.passOver k lexeme).pieces? = some (Piece.scan behind) :=
      pieces?_of_remainder (remainder?_forward hRest rfl rfl)
    have hPlace := Reading.preview_scan (lexeme ++ behind)
    have hPieces := Piece.scan_of_classify hFound
    rw [List.drop_left] at hPieces
    have hHere := pieces?_of_remainder hRest
    rw [hPieces] at hPlace hHere
    constructor
    · rw [tokens?, tokens?, hHere, hNext]
      simp [passOver, Reading.tokensOf]
    · rw [log, log, hHere, hNext]
      simp only [Option.getD_some, passOver, Reading.logOf, recordsBefore, Reading.recordPlace,
        hPlace]
      split <;> simp
  · have hSplit : c.remainder? = some ([d] ++ behind) := hRest
    have hNext : (c.advance d.utf8Size).pieces? = some (Piece.scan behind) :=
      pieces?_of_remainder (remainder?_forward hSplit rfl rfl)
    have hPlace := Reading.preview_scan (d :: behind)
    have hHere := pieces?_of_remainder hRest
    rw [Piece.scan_of_stray hNone] at hPlace hHere
    constructor
    · rw [tokens?, tokens?, hHere, hNext]
      rfl
    · rw [log, log, hHere, hNext]
      simp only [Option.getD_some, Reading.logOf, recordsBefore, Reading.recordPlace, hPlace]
      split <;> simp [advance]

theorem loop?_eq (c : Cursor) : c.loop? = c.tokens?.map fun tokens => (tokens, c.log) := by
  fun_induction loop? c with
  | case1 c hEnd => simp [tokens?, log, pieces?, hEnd, Reading.tokensOf, Reading.logOf]
  | case2 c hEnd hNone =>
    simp [tokens?, pieces?, hEnd, remainder?_of_round?_eq_none hEnd hNone]
  | case3 c hEnd next records hRound ih =>
    obtain ⟨hTokens, hLog⟩ := stream_of_round? hRound
    rw [ih, hTokens, hLog, Option.map_map]
    rfl

theorem loop?_start (r : Reading) (source : String) :
    (start r source).loop? = some (r.tokens source, r.log source) := by
  have hPieces : (start r source).pieces? = some (Piece.scan source.toList) :=
    pieces?_of_remainder (by simp [remainder?, start, dropBytes?])
  rw [loop?_eq, tokens?, log, hPieces]
  rfl

end Cursor

end Frontend
