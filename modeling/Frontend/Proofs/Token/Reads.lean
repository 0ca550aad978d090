import Frontend.Proofs.Grammar.Standard
import Frontend.Proofs.Token.Front
import Frontend.Token.Stream

/-!
# Reading a text stretch by stretch

Where a lexeme ends depends on what stands behind it, so a text cannot be cut anywhere and its parts
read alone. `Reads front rest P` says what becomes of `front` while `rest` stands behind it: its
tokens satisfy `P`, and reading goes on with `rest`. Stretches that are read one behind the other
are read together.

* `Reads.append`: two stretches in a row.
* `reads_token`, `reads_blank`: a stretch that holds one lexeme.
* `reads_keyword`, `reads_bracket`, `reads_operator`: a stretch that holds one symbol.
* `reads_between`: a stretch with brackets around it.
* `Yields`, `yields_first`: a property of all tokens of a text, and how they begin.
-/

namespace Frontend

open Rule (isWordChar endsKeyword endsTruth)
open Text (byteLength)

/-- Before the given rest, the text is read as tokens that satisfy the predicate. Blanks become no
tokens. -/
def Reads (front rest : List Char) (P : List Token → Prop) : Prop :=
  ∀ offset, ∃ ts, P ts ∧ Reading.default.tokensOf offset (Piece.scan (front ++ rest)) =
    ts ++ Reading.default.tokensOf (offset + byteLength front) (Piece.scan rest)

/-- The tokens are those of two stretches, one behind the other. -/
def InTurn (P Q : List Token → Prop) (ts : List Token) : Prop :=
  ∃ us vs, ts = us ++ vs ∧ P us ∧ Q vs

variable {front back rest : List Char} {P Q : List Token → Prop} {k : TokenClass}

/-! ## Putting stretches together -/

theorem Reads.imp (h : Reads front rest P) (hPQ : ∀ ts, P ts → Q ts) : Reads front rest Q := by
  intro offset
  obtain ⟨ts, hTokens, hRead⟩ := h offset
  exact ⟨ts, hPQ ts hTokens, hRead⟩

theorem reads_nil (h : P []) : Reads [] rest P :=
  fun _ => ⟨[], h, rfl⟩

theorem Reads.append (hFront : Reads front (back ++ rest) P) (hBack : Reads back rest Q) :
    Reads (front ++ back) rest (InTurn P Q) := by
  intro offset
  obtain ⟨us, hUs, hReadFront⟩ := hFront offset
  obtain ⟨vs, hVs, hReadBack⟩ := hBack (offset + byteLength front)
  refine ⟨us ++ vs, ⟨us, vs, rfl, hUs, hVs⟩, ?_⟩
  rw [List.append_assoc, hReadFront, hReadBack, Text.byteLength_append, ← Nat.add_assoc,
    List.append_assoc]

/-! ## Stretches of one lexeme -/

theorem reads_token (h : classify (front ++ rest) = some (k, front)) (hk : k ≠ .whitespace)
    (hP : ∀ t : Token, t.tokenClass = k → t.lexeme = String.ofList front → P [t]) :
    Reads front rest P := by
  intro offset
  let t : Token := ⟨k, String.ofList front,
    .ofOffsets Reading.default.file offset (offset + byteLength front)⟩
  refine ⟨[t], hP t rfl rfl, ?_⟩
  have hKept : Reading.default.token? k front offset (offset + byteLength front) = some t :=
    if_neg fun hBlank => hk hBlank.1
  rw [Piece.scan_of_classify h, List.drop_left, Reading.tokensOf, hKept]
  rfl

theorem reads_truth {b : Bool} (hRest : endsTruth rest = true) :
    Reads (Truth.text b).toList rest fun ts => ∃ t, ts = [t] ∧ t.tokenClass = .boolean :=
  reads_token (classify_truth hRest) nofun fun t hClass _ => ⟨t, rfl, hClass⟩

/-- A single blank becomes no token. -/
theorem reads_blank (h : ∀ c ∈ rest.head?, Text.isBlank c = false) :
    Reads [' '] rest (· = []) := by
  have hFound : classify ([' '] ++ rest) = some (.whitespace, [' ']) := by
    have hRun : Rule.run? Text.isBlank ([' '] ++ rest) = some [' '] := by
      refine run?_exact (List.cons_ne_nil _ _) (fun c hc => ?_) h
      rw [List.mem_singleton.1 hc]
      rfl
    rw [classify, Rule.all, List.findSome?_cons, Rule.find?, Rule.lexeme?, hRun]
    rfl
  intro offset
  refine ⟨[], rfl, ?_⟩
  have hDropped : Reading.default.token? .whitespace [' '] offset
      (offset + byteLength [' ']) = none := if_pos ⟨rfl, rfl⟩
  rw [Piece.scan_of_classify hFound, List.drop_left, Reading.tokensOf, hDropped]
  rfl

/-- The tokens are one token that stands for the symbol. -/
def One (s : Symbol) (ts : List Token) : Prop :=
  ∃ t, ts = [t] ∧ t.is s = true

theorem reads_symbol {s : Symbol}
    (h : classify (s.spelling.toList ++ rest) = some (s.tokenClass, s.spelling.toList)) :
    Reads s.spelling.toList rest (One s) := by
  refine reads_token h (by cases s <;> decide) fun t hClass hLexeme => ⟨t, rfl, ?_⟩
  rw [String.ofList_toList] at hLexeme
  exact Token.is_iff.2 (Token.symbol?_eq_some_iff.2 ⟨hLexeme, hClass⟩)

theorem reads_keyword {s : Symbol} (hs : s.tokenClass = .keyword)
    (hRest : endsKeyword rest = true) : Reads s.spelling.toList rest (One s) :=
  reads_symbol (classify_keyword hs hRest)

theorem reads_bracket {s : Symbol} (hs : s = .semicolon ∨ s ∈ Symbol.brackets) :
    Reads s.spelling.toList rest (One s) :=
  reads_symbol (classify_bracket rest hs)

theorem reads_operator {s : Symbol} (hs : s.tokenClass = .operator ∨ s = .assignment)
    (hRest : ∀ c ∈ rest.head?, c ∉ ['=', '+', '-']) : Reads s.spelling.toList rest (One s) :=
  reads_symbol (classify_operator hs hRest)

/-- A keyword and a blank behind it. -/
theorem reads_keyword_blank {s : Symbol} (hs : s.tokenClass = .keyword)
    (hRest : ∀ c ∈ rest.head?, Text.isBlank c = false) :
    Reads (s.spelling.toList ++ [' ']) rest (One s) := by
  refine ((reads_keyword hs rfl).append (reads_blank hRest)).imp ?_
  rintro _ ⟨us, _, rfl, hUs, rfl⟩
  rw [List.append_nil]
  exact hUs

/-! ## Stretches between brackets -/

/-- The tokens satisfy the predicate, between one token for each of the two symbols. -/
def Between (first last : Symbol) (P : List Token → Prop) (ts : List Token) : Prop :=
  ∃ opening inner close, ts = opening :: (inner ++ [close]) ∧ opening.is first = true ∧
    close.is last = true ∧ P inner

theorem reads_between {first last : Symbol} (hFirst : first ∈ Symbol.brackets)
    (hLast : last ∈ Symbol.brackets) (h : Reads front (last.spelling.toList ++ rest) P) :
    Reads (first.spelling.toList ++ (front ++ last.spelling.toList)) rest
      (Between first last P) := by
  have hOpening : Reads first.spelling.toList
      ((front ++ last.spelling.toList) ++ rest) (One first) :=
    reads_bracket (Or.inr hFirst)
  have hClose : Reads last.spelling.toList rest (One last) :=
    reads_bracket (Or.inr hLast)
  refine (hOpening.append (h.append hClose)).imp ?_
  rintro _ ⟨_, _, rfl, ⟨opening, rfl, hIsFirst⟩, inner, _, rfl, hInner, close, rfl, hIsLast⟩
  exact ⟨opening, inner, close, rfl, hIsFirst, hIsLast, hInner⟩

/-! ## All tokens of a text -/

/-- The tokens of the text satisfy the predicate, wherever the text begins. -/
def Yields (text : List Char) (P : List Token → Prop) : Prop :=
  ∀ offset, P (Reading.default.tokensOf offset (Piece.scan text))

variable {R : List Token → Prop}

theorem Yields.imp (h : Yields rest P) (hPQ : ∀ ts, P ts → Q ts) : Yields rest Q :=
  fun offset => hPQ _ (h offset)

/-- A stretch that is read, and all that stands behind it. -/
theorem Reads.yields (hFront : Reads front rest P) (hRest : Yields rest Q)
    (h : ∀ us ts, P us → Q ts → R (us ++ ts)) : Yields (front ++ rest) R := by
  intro offset
  obtain ⟨us, hUs, hRead⟩ := hFront offset
  rw [hRead]
  exact h us _ hUs (hRest _)

theorem yields_blank (h : ∀ c ∈ rest.head?, Text.isBlank c = false) (hRest : Yields rest P) :
    Yields (' ' :: rest) P := by
  refine (reads_blank h).yields hRest ?_
  rintro _ ts rfl hTokens
  exact hTokens

/-- The first token of a text that begins with a word or an opening parenthesis. If it stands for a
symbol, the symbol begins as the text does. -/
theorem yields_first {c : Char} {text : List Char} (hc : isWordChar c = true ∨ c = '(') :
    Yields (c :: text) fun ts => ∃ t tail, ts = t :: tail ∧ t.isEnd = false ∧
      ∀ s, t.is s = true → s.spelling.toList.head? = some c := by
  obtain ⟨⟨k, lexeme⟩, hFound⟩ : ∃ found, classify (c :: text) = some found := by
    refine Option.ne_none_iff_exists'.1 fun hNone => ?_
    rcases hc with hWord | rfl
    · have hRule := classify_eq_none_iff.1 hNone .word (by decide)
      rw [Rule.lexeme?, Rule.run?, List.takeWhile_cons_of_pos hWord] at hRule
      cases hRule
    · cases classify_eq_none_iff.1 hNone (.mark .openParen) (by decide)
  have hBlank : Text.isBlank c = false := by
    rcases hc with hWord | rfl
    · exact isBlank_of_isWordChar hWord
    · decide
  have hKept : k ≠ .whitespace := by
    rintro rfl
    have hRun := takeWhile_of_classify_whitespace hFound
    rw [List.takeWhile_cons_of_neg (by simp [hBlank])] at hRun
    exact classify_ne_nil hFound hRun.symm
  obtain ⟨behind, hText⟩ := classify_isPrefix hFound
  obtain ⟨d, tail, rfl⟩ := List.exists_cons_of_ne_nil (classify_ne_nil hFound)
  have hHead : d = c := (List.cons.inj hText).1
  subst hHead
  have hToken : Reads (d :: tail) behind fun ts => ∃ t, ts = [t] ∧ t.isEnd = false ∧
      t.lexeme = String.ofList (d :: tail) := by
    rw [← hText] at hFound
    refine reads_token hFound hKept fun t hClass hLexeme => ⟨t, rfl, ?_, hLexeme⟩
    rw [Token.isEnd, hClass]
    exact decide_eq_false (tokenClass_ne_endOfInput_of_classify hFound)
  rw [← hText]
  refine hToken.yields (Q := fun _ => True) (fun _ => trivial) ?_
  rintro _ ts ⟨t, rfl, hEnd, hLexeme⟩ -
  refine ⟨t, ts, rfl, hEnd, fun s hIs => ?_⟩
  have hSpelling := (Token.symbol?_eq_some_iff.1 (Token.is_iff.1 hIs)).1
  rw [← hSpelling, hLexeme, String.toList_ofList]
  rfl

end Frontend
