import Frontend.Proofs.Token.Break

/-!
# Blanks between tokens

Blanks only part the lexemes of a source. A reading that leaves them out gives the tokens of a
reading that keeps them, at the same places, less the blanks themselves; and however two texts are
parted by blanks, they are read as each of them alone.

* `filter_tokensOf`: leaving blanks out is a filter on the tokens.
* `filter_tokensOf_blanks`: two texts with a run of blanks between them. Positions apart, the tokens
  do not depend on the run.
* `tokens_blanks`: the two together, for whole sources.
-/

namespace Frontend

open Text (byteLength isBlank)

/-- The token without its place. -/
def Token.unplaced (t : Token) : TokenClass × String :=
  (t.tokenClass, t.lexeme)

variable {r : Reading}

/-! ## Leaving blanks out -/

/-- Whether blanks are left out decides only about the tokens that are blanks. -/
theorem filter_token? {keeping : Reading} (hFile : keeping.file = r.file)
    (hSkip : r.skipBlanks = true) (hKeep : keeping.skipBlanks = false) (k : TokenClass)
    (lexeme : List Char) (start stop : Nat) :
    (keeping.token? k lexeme start stop).toList.filter (fun t => t.tokenClass ≠ .whitespace) =
      (r.token? k lexeme start stop).toList := by
  have hKept : ¬ (k = .whitespace ∧ keeping.skipBlanks = true) := by
    rw [hKeep]
    exact fun h => Bool.false_ne_true h.2
  rw [Reading.token?, Reading.token?, if_neg hKept, hFile]
  by_cases hBlank : k = .whitespace
  · rw [if_pos ⟨hBlank, hSkip⟩]
    simp [hBlank]
  · rw [if_neg fun h => hBlank h.1]
    simp [hBlank]

theorem filter_tokensOf (r keeping : Reading) (hFile : keeping.file = r.file)
    (hSkip : r.skipBlanks = true) (hKeep : keeping.skipBlanks = false) (offset : Nat)
    (pieces : List Piece) :
    (keeping.tokensOf offset pieces).filter (fun t => t.tokenClass ≠ .whitespace) =
      r.tokensOf offset pieces := by
  induction pieces generalizing offset with
  | nil =>
    rw [Reading.tokensOf, Reading.tokensOf, hFile]
    rfl
  | cons piece rest ih =>
    cases piece with
    | stray c => exact ih _
    | lexeme k text =>
      rw [Reading.tokensOf, Reading.tokensOf, List.filter_append,
        filter_token? hFile hSkip hKeep, ih]

/-! ## Tokens without their places -/

/-- Where a text begins matters only to the places of its tokens. -/
theorem unplaced_tokensOf (offset offset' : Nat) (pieces : List Piece) :
    (r.tokensOf offset pieces).map Token.unplaced =
      (r.tokensOf offset' pieces).map Token.unplaced := by
  induction pieces generalizing offset offset' with
  | nil => rfl
  | cons piece rest ih =>
    cases piece with
    | stray c => exact ih _ _
    | lexeme k text =>
      have hFirst : ∀ start stop start' stop',
          (r.token? k text start stop).toList.map Token.unplaced =
            (r.token? k text start' stop').toList.map Token.unplaced := by
        intro start stop start' stop'
        unfold Reading.token?
        split <;> rfl
      rw [Reading.tokensOf, Reading.tokensOf, List.map_append, List.map_append,
        ih _ (offset' + byteLength text), hFirst]

/-- The tokens of a text but the mark of its end. -/
theorem dropLast_tokensOf (offset : Nat) (text : List Char) :
    (r.tokensOf offset (Piece.scan text)).dropLast =
      (r.tokensOf offset (Piece.scan text)).filter fun t => !t.isEnd := by
  obtain ⟨written, hTokens, hWritten⟩ := tokensOf_eq r offset text
  have hKept : written.filter (fun t => !t.isEnd) = written := by
    apply List.filter_eq_self.2
    intro t ht
    simpa using hWritten t ht
  rw [hTokens, List.dropLast_concat, List.filter_append, hKept]
  simp [Token.endOfInput, Token.isEnd]

/-! ## Runs of blanks -/

/-- A run of blanks in front of a text only moves the text. -/
theorem tokensOf_blanks (hSkip : r.skipBlanks = true) {blanks : List Char}
    (hBlanks : ∀ c ∈ blanks, isBlank c = true) (offset : Nat) (text : List Char) :
    r.tokensOf offset (Piece.scan (blanks ++ text)) =
      r.tokensOf (offset + byteLength blanks) (Piece.scan text) := by
  induction blanks generalizing offset with
  | nil => rfl
  | cons c tail ih =>
    have hTail : ∀ d ∈ tail, isBlank d = true :=
      fun d hd => hBlanks d (List.mem_cons_of_mem c hd)
    rw [List.cons_append, tokensOf_blank hSkip (hBlanks c List.mem_cons_self), ih hTail,
      Text.byteLength_cons, Nat.add_assoc]

/-- Two texts with a run of blanks between them. The first blank of the run parts the texts, and the
others stand in front of the second one. -/
theorem filter_tokensOf_blanks (hSkip : r.skipBlanks = true) {blanks : List Char}
    (hBlanks : ∀ c ∈ blanks, isBlank c = true) (hRun : blanks ≠ []) (offset : Nat)
    (front back : List Char) :
    (r.tokensOf offset (Piece.scan (front ++ blanks ++ back))).map Token.unplaced =
      ((r.tokensOf 0 (Piece.scan front)).filter fun t => !t.isEnd).map Token.unplaced ++
        (r.tokensOf 0 (Piece.scan back)).map Token.unplaced := by
  obtain ⟨w, others, rfl⟩ := List.exists_cons_of_ne_nil hRun
  have hOthers : ∀ c ∈ others, isBlank c = true :=
    fun c hc => hBlanks c (List.mem_cons_of_mem w hc)
  have hFront : (r.tokensOf offset (Piece.scan front)).dropLast.map Token.unplaced =
      (r.tokensOf 0 (Piece.scan front)).dropLast.map Token.unplaced := by
    rw [List.map_dropLast, List.map_dropLast, unplaced_tokensOf offset 0]
  rw [List.append_assoc, List.cons_append,
    tokensOf_break hSkip (hBlanks w List.mem_cons_self), List.map_append, hFront,
    dropLast_tokensOf, tokensOf_blanks hSkip hOthers]
  congr 1
  exact unplaced_tokensOf _ _ _

/-- Blanks only part the tokens of a source. Left out, they are missing from the tokens, and nothing
else is; and a run of blanks between two texts ends the first one as the end of a source does. So
any other run in its place gives the same tokens at other places. -/
theorem tokens_blanks (file : String) (verbose verbose' : Bool) :
    (∀ source, (Reading.mk file true verbose).tokens source =
      ((Reading.mk file false verbose').tokens source).filter
        fun t => t.tokenClass ≠ .whitespace) ∧
    ∀ a b w : String, w ≠ "" → (∀ c ∈ w.toList, isBlank c = true) →
      ((Reading.mk file true verbose).tokens (a ++ w ++ b)).map Token.unplaced =
          (((Reading.mk file true verbose).tokens a).filter fun t => !t.isEnd).map
              Token.unplaced ++
            ((Reading.mk file true verbose).tokens b).map Token.unplaced ∧
        ∀ w' : String, w' ≠ "" → (∀ c ∈ w'.toList, isBlank c = true) →
          ((Reading.mk file true verbose).tokens (a ++ w ++ b)).map Token.unplaced =
            ((Reading.mk file true verbose).tokens (a ++ w' ++ b)).map Token.unplaced := by
  have hParted : ∀ a b w : String, w ≠ "" → (∀ c ∈ w.toList, isBlank c = true) →
      ((Reading.mk file true verbose).tokens (a ++ w ++ b)).map Token.unplaced =
        (((Reading.mk file true verbose).tokens a).filter fun t => !t.isEnd).map
            Token.unplaced ++
          ((Reading.mk file true verbose).tokens b).map Token.unplaced := by
    intro a b w hRun hBlanks
    have hText : w.toList ≠ [] := fun h => hRun (String.toList_eq_nil_iff.1 h)
    rw [Reading.tokens, String.toList_append, String.toList_append]
    exact filter_tokensOf_blanks rfl hBlanks hText 0 a.toList b.toList
  constructor
  · intro source
    have hFilter : ((Reading.mk file false verbose').tokensOf 0 (Piece.scan source.toList)).filter
        (fun t => t.tokenClass ≠ .whitespace) =
          (Reading.mk file true verbose).tokensOf 0 (Piece.scan source.toList) :=
      filter_tokensOf ⟨file, true, verbose⟩ ⟨file, false, verbose'⟩ rfl rfl rfl 0 _
    exact hFilter.symm
  · intro a b w hRun hBlanks
    refine ⟨hParted a b w hRun hBlanks, ?_⟩
    intro w' hRun' hBlanks'
    rw [hParted a b w hRun hBlanks, hParted a b w' hRun' hBlanks']

/-- A truth value that is ended by two kinds of blanks, in front of digits without a fraction. -/
theorem tokens_blanks_mixed :
    " \u3000" ≠ "" ∧ (∀ c ∈ " \u3000".toList, isBlank c = true) ∧
      (Reading.default.tokens ("if true" ++ " \u3000" ++ "1.")).map Token.unplaced =
        ((Reading.default.tokens "if true").filter fun t => !t.isEnd).map Token.unplaced ++
          (Reading.default.tokens "1.").map Token.unplaced :=
  have hRun : " \u3000" ≠ "" := by decide
  have hBlanks : ∀ c ∈ " \u3000".toList, isBlank c = true := List.all_eq_true.1 (by decide)
  ⟨hRun, hBlanks,
    ((tokens_blanks Reading.unnamed false false).2 "if true" "1." " \u3000" hRun hBlanks).1⟩

end Frontend
