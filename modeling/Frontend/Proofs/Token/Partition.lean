import Frontend.Proofs.Token.Front
import Frontend.Proofs.Token.Loop

/-!
# How the tokens divide a source

Reading divides a source into parts: tokens, runs of blanks that are dropped, and single characters
at which no lexical rule accepts. The parts lie side by side, and nothing of the source lies between
them. `Tiles` says what each part owes to its place, and everything else follows from it.

* `exists_tiles`: what the loop reads behind an offset comes from a tiling that begins there.
* `Tiles.slices`, `Tiles.pairwise`: the tokens of a tiling are slices of the source, one behind the
  other. Offsets are words of 32 bits, so this needs the source to be shorter than 2^32 bytes.
* `Partitions.pairwise_start`: no two tokens of a source begin at the same place.
* `tokens_partition`: a source of that size is read without fail, and its tokens divide it.
-/

namespace Frontend

open Text (byteLength)

/-- The text lies between two byte offsets of the source, both at character boundaries. -/
def Text.IsSlice (source : List Char) (start stop : Nat) (text : List Char) : Prop :=
  ∃ before after, source = before ++ text ++ after ∧ byteLength before = start ∧
    byteLength (before ++ text) = stop

/-! ## Parts -/

/-- A stretch of a source, by what becomes of it. -/
inductive Part where
  | token (t : Token)
  /-- Blanks that become no token. -/
  | blanks (text : List Char)
  /-- A character at which no lexical rule accepts. -/
  | stray (c : Char)
  deriving DecidableEq

namespace Part

def text : Part → List Char
  | token t => t.lexeme.toList
  | blanks text => text
  | stray c => [c]

def token? : Part → Option Token
  | token t => some t
  | blanks _ => none
  | stray _ => none

/-- What is recorded about the part that begins at the offset, however little is recorded. -/
def warning? (offset : Nat) : Part → Option Record
  | token _ => none
  | blanks _ => none
  | stray c => some (Reading.recordStray c offset)

/-- Whether the part belongs at the offset, before the given text. A token is what the lexical rules
find there, with its place. Dropped blanks are all the blanks there are. -/
def Fits (r : Reading) (offset : Nat) (behind : List Char) : Part → Prop
  | token t =>
    classify (t.lexeme.toList ++ behind) = some (t.tokenClass, t.lexeme.toList) ∧
      t.span = .ofOffsets r.file offset (offset + byteLength t.lexeme.toList) ∧
      (t.tokenClass = .whitespace → r.skipBlanks = false)
  | blanks text =>
    r.skipBlanks = true ∧ text ≠ [] ∧ (text ++ behind).takeWhile Text.isBlank = text
  | stray c => ∀ rule ∈ Rule.all, rule.lexeme? (c :: behind) = none

end Part

/-- Whether the parts fit side by side, the first one at the offset. -/
def Tiles (r : Reading) : Nat → List Part → Prop
  | _, [] => True
  | offset, part :: rest =>
    part.Fits r offset (rest.flatMap Part.text) ∧ Tiles r (offset + byteLength part.text) rest

/-- What is recorded about the parts, the first of which begins at the offset. -/
def warnings : Nat → List Part → List Record
  | _, [] => []
  | offset, part :: rest =>
    (part.warning? offset).toList ++ warnings (offset + byteLength part.text) rest

/-! ## Reading gives a tiling -/

theorem exists_part_of_classify (r : Reading) (offset : Nat) {behind lexeme : List Char}
    {k : TokenClass} (h : classify (lexeme ++ behind) = some (k, lexeme)) :
    ∃ part : Part, part.text = lexeme ∧ part.Fits r offset behind ∧
      part.token? = r.token? k lexeme offset (offset + byteLength lexeme) ∧
      part.warning? offset = none := by
  by_cases hDropped : k = .whitespace ∧ r.skipBlanks = true
  · obtain ⟨rfl, hSkip⟩ := hDropped
    have hRun := takeWhile_of_classify_whitespace h
    refine ⟨.blanks lexeme, rfl, ⟨hSkip, classify_ne_nil h, hRun⟩, ?_, rfl⟩
    simp [Reading.token?, hSkip, Part.token?]
  · refine ⟨.token ⟨k, String.ofList lexeme, .ofOffsets r.file offset (offset + byteLength lexeme)⟩,
      String.toList_ofList, ⟨?_, ?_, ?_⟩, ?_, rfl⟩
    · simpa using h
    · simp
    · intro hBlank
      exact Bool.eq_false_iff.2 fun hSkip => hDropped ⟨hBlank, hSkip⟩
    · rw [Reading.token?, if_neg hDropped]
      rfl

theorem exists_tiles (r : Reading) (offset : Nat) (rest : List Char) :
    ∃ parts : List Part, parts.flatMap Part.text = rest ∧ Tiles r offset parts ∧
      r.tokensOf offset (Piece.scan rest) =
        parts.filterMap Part.token? ++ [.endOfInput r.file (offset + byteLength rest)] ∧
      (r.logOf offset (Piece.scan rest)).filter (fun record => record.level = .warn) =
        warnings offset parts := by
  fun_induction Piece.scan rest generalizing offset with
  | case1 => exact ⟨[], rfl, trivial, rfl, rfl⟩
  | case2 c rest k lexeme hFound ih =>
    obtain ⟨behind, hBehind⟩ := classify_isPrefix hFound
    rw [← hBehind, List.drop_left] at ih
    rw [← hBehind] at hFound ⊢
    rw [List.drop_left]
    obtain ⟨parts, rfl, hTiles, hTokens, hLog⟩ := ih (offset + byteLength lexeme)
    obtain ⟨part, rfl, hFits, hToken, hWarning⟩ := exists_part_of_classify r offset hFound
    refine ⟨part :: parts, rfl, ⟨hFits, hTiles⟩, ?_, ?_⟩
    · rw [Reading.tokensOf, hTokens, ← hToken, Text.byteLength_append, Nat.add_assoc]
      cases hKept : part.token? <;> simp [hKept]
    · rw [Reading.logOf, List.filter_append, hLog, warnings, hWarning]
      split <;> simp [Reading.recordPlace, Reading.recordLexeme]
  | case3 c rest hNone ih =>
    obtain ⟨parts, rfl, hTiles, hTokens, hLog⟩ := ih (offset + c.utf8Size)
    refine ⟨.stray c :: parts, rfl, ⟨classify_eq_none_iff.1 hNone, hTiles⟩, ?_, ?_⟩
    · rw [Reading.tokensOf, hTokens, Text.byteLength_cons, Nat.add_assoc]
      rfl
    · rw [Reading.logOf, List.filter_append, List.filter_cons_of_pos (by rfl), hLog]
      split <;> simp [Reading.recordPlace, warnings, Part.warning?, Part.text]

/-! ## What a tiling says about its tokens -/

theorem Text.IsSlice.lt {source text : List Char} {start stop : Nat}
    (h : Text.IsSlice source start stop text) (hText : text ≠ []) : start < stop := by
  obtain ⟨before, after, -, rfl, rfl⟩ := h
  have hPos := Text.byteLength_pos hText
  rw [Text.byteLength_append]
  omega

theorem Part.token?_eq_some_iff {part : Part} {t : Token} :
    part.token? = some t ↔ part = .token t := by
  cases part <;> simp [Part.token?]

theorem mem_tokens_iff {parts : List Part} {t : Token} :
    t ∈ parts.filterMap Part.token? ↔ Part.token t ∈ parts := by
  simp only [List.mem_filterMap, Part.token?_eq_some_iff, exists_eq_right]

theorem Part.Fits.span {r : Reading} {offset : Nat} {behind : List Char} {t : Token}
    (h : (Part.token t).Fits r offset behind)
    (hSize : offset + byteLength t.lexeme.toList < UInt32.size) :
    t.span.start.toNat = offset ∧ t.span.stop.toNat = offset + byteLength t.lexeme.toList := by
  rw [h.2.1]
  exact ⟨UInt32.toNat_ofNat_of_lt' (by omega), UInt32.toNat_ofNat_of_lt' hSize⟩

/-- The tokens of a tiling are slices of what stands before it and the tiling together. They lie
behind the offset at which the tiling begins. -/
theorem Tiles.slices {r : Reading} {offset : Nat} {parts : List Part} {before : List Char}
    (h : Tiles r offset parts) (hOffset : byteLength before = offset)
    (hSize : byteLength (before ++ parts.flatMap Part.text) < UInt32.size) {t : Token}
    (hMem : Part.token t ∈ parts) :
    t.isEnd = false ∧ t.lexeme.toList ≠ [] ∧ offset ≤ t.span.start.toNat ∧
      Text.IsSlice (before ++ parts.flatMap Part.text) t.span.start.toNat t.span.stop.toNat
        t.lexeme.toList := by
  induction parts generalizing offset before with
  | nil => cases hMem
  | cons part rest ih =>
    obtain ⟨hFits, hRest⟩ := h
    rw [List.flatMap_cons, ← List.append_assoc] at hSize ⊢
    have hFront : byteLength (before ++ part.text) = offset + byteLength part.text := by
      rw [Text.byteLength_append, hOffset]
    rcases List.mem_cons.1 hMem with rfl | hMem
    · rw [Text.byteLength_append, hFront] at hSize
      obtain ⟨hStart, hStop⟩ := hFits.span (Nat.lt_of_le_of_lt (Nat.le_add_right _ _) hSize)
      refine ⟨?_, classify_ne_nil hFits.1, Nat.le_of_eq hStart.symm, before,
        rest.flatMap Part.text, rfl, hOffset.trans hStart.symm, hFront.trans hStop.symm⟩
      simpa [Token.isEnd] using tokenClass_ne_endOfInput_of_classify hFits.1
    · obtain ⟨hEnd, hText, hStart, hSlice⟩ := ih hRest hFront hSize hMem
      exact ⟨hEnd, hText, by omega, hSlice⟩

theorem Tiles.pairwise {r : Reading} {offset : Nat} {parts : List Part} {before : List Char}
    (h : Tiles r offset parts) (hOffset : byteLength before = offset)
    (hSize : byteLength (before ++ parts.flatMap Part.text) < UInt32.size) :
    (parts.filterMap Part.token?).Pairwise fun s t => s.span.stop ≤ t.span.start := by
  induction parts generalizing offset before with
  | nil => exact List.Pairwise.nil
  | cons part rest ih =>
    obtain ⟨hFits, hRest⟩ := h
    rw [List.flatMap_cons, ← List.append_assoc] at hSize
    have hFront : byteLength (before ++ part.text) = offset + byteLength part.text := by
      rw [Text.byteLength_append, hOffset]
    have hPairwise := ih hRest hFront hSize
    cases part with
    | blanks text => exact hPairwise
    | stray c => exact hPairwise
    | token t =>
      refine List.Pairwise.cons ?_ hPairwise
      intro s hMem
      obtain ⟨-, -, hStart, -⟩ := hRest.slices hFront hSize (mem_tokens_iff.1 hMem)
      rw [Text.byteLength_append, hFront] at hSize
      obtain ⟨-, hStop⟩ := hFits.span (Nat.lt_of_le_of_lt (Nat.le_add_right _ _) hSize)
      rw [UInt32.le_iff_toNat_le, hStop]
      exact hStart

/-! ## The partition of a source -/

/-- The parts divide the source into what reading makes of it. Behind them stands the mark of the
end. -/
structure Partitions (r : Reading) (source : String) (parts : List Part) (last : Token) : Prop where
  /-- The parts put together are the source. -/
  spelled : parts.flatMap Part.text = source.toList
  tiles : Tiles r 0 parts
  /-- The tokens are those of the parts, and the mark of the end. -/
  tokens : r.tokens source = parts.filterMap Part.token? ++ [last]
  /-- The warnings are those about the stray characters. -/
  warnings : (r.log source).filter (fun record => record.level = .warn) = warnings 0 parts
  slices : ∀ t ∈ parts.filterMap Part.token?, t.isEnd = false ∧ t.span.start < t.span.stop ∧
    Text.IsSlice source.toList t.span.start.toNat t.span.stop.toNat t.lexeme.toList
  ordered : (parts.filterMap Part.token?).Pairwise fun s t => s.span.stop ≤ t.span.start
  last_isEnd : last.isEnd = true
  last_lexeme : last.lexeme = ""
  last_span : last.span.start.toNat = byteLength source.toList ∧
    last.span.stop.toNat = byteLength source.toList

theorem exists_partitions (r : Reading) (source : String)
    (hSize : byteLength source.toList < UInt32.size) :
    ∃ parts last, Partitions r source parts last := by
  obtain ⟨parts, hSpelled, hTiles, hTokens, hLog⟩ := exists_tiles r 0 source.toList
  rw [Nat.zero_add] at hTokens
  have hBound : byteLength ([] ++ parts.flatMap Part.text) < UInt32.size := by
    rw [List.nil_append, hSpelled]
    exact hSize
  have hLast := UInt32.toNat_ofNat_of_lt' hSize
  refine ⟨parts, _, hSpelled, hTiles, hTokens, hLog, ?_, hTiles.pairwise rfl hBound, rfl, rfl,
    hLast, hLast⟩
  intro t hMem
  obtain ⟨hEnd, hText, -, hSlice⟩ := hTiles.slices rfl hBound (mem_tokens_iff.1 hMem)
  rw [List.nil_append, hSpelled] at hSlice
  exact ⟨hEnd, UInt32.lt_iff_toNat_lt.2 (hSlice.lt hText), hSlice⟩

/-- Each token begins behind the ones before it, and so does the mark of the end. -/
theorem Partitions.pairwise_start {r : Reading} {source : String} {parts : List Part}
    {last : Token} (h : Partitions r source parts last) :
    (r.tokens source).Pairwise fun s t => s.span.start < t.span.start := by
  rw [h.tokens, List.pairwise_append]
  refine ⟨?_, List.pairwise_singleton _ _, ?_⟩
  · refine h.ordered.imp_of_mem ?_
    intro s t hs _ hLe
    exact Nat.lt_of_lt_of_le (h.slices s hs).2.1 hLe
  · intro s hs t ht
    rw [List.mem_singleton.1 ht]
    obtain ⟨-, hLt, before, after, hSource, -, hStop⟩ := h.slices s hs
    have hBound : s.span.stop ≤ last.span.start := by
      rw [UInt32.le_iff_toNat_le, ← hStop, h.last_span.1, hSource, Text.byteLength_append _ after]
      exact Nat.le_add_right _ _
    exact Nat.lt_of_lt_of_le hLt hBound

/-- A source that is shorter than 2^32 bytes is read without fail, and what is read divides it. -/
theorem tokens_partition (r : Reading) (source : String)
    (hSize : byteLength source.toList < UInt32.size) :
    (Cursor.start r source).loop? = some (r.tokens source, r.log source) ∧
      ∃ parts last, Partitions r source parts last :=
  ⟨Cursor.loop?_start r source, exists_partitions r source hSize⟩

/-- A source with blanks and with a stray character of two bytes. -/
theorem tokens_partition_accented :
    byteLength "a é+1".toList < UInt32.size ∧
      ∃ parts last, Partitions ⟨Reading.unnamed, true, true⟩ "a é+1" parts last :=
  ⟨by decide, (tokens_partition _ _ (by decide)).2⟩

end Frontend
