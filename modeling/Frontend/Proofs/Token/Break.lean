import Mathlib.Data.List.Forall2
import Frontend.Proofs.Token.Front
import Frontend.Token.Stream

/-!
# Breaks between texts

No lexical rule looks past a blank: whatever it accepts before the blank, it accepts in the same way
if the text ends there. So two texts with a blank between them are read as each of them alone, the
second one further on.

* `classify_blank`: a blank ends what stands before it as the end of the text does.
* `tokensOf_break`: the tokens of two texts with a blank between them.
* `tokensOf_shifted`: the tokens of a text that begins further on.
-/

namespace Frontend

open Rule (run? spelled? fraction? endsKeyword endsTruth)
open Text (byteLength isBlank)

variable {w : Char} {text rest : List Char}

/-! ## Rules in front of a blank -/

theorem takeWhile_append_break {kind : Char → Bool} (hw : kind w = false) (text rest : List Char) :
    (text ++ w :: rest).takeWhile kind = text.takeWhile kind := by
  induction text with
  | nil => simp [hw]
  | cons c tail ih =>
    rw [List.cons_append, List.takeWhile_cons, List.takeWhile_cons, ih]

theorem dropWhile_append_break {kind : Char → Bool} (hw : kind w = false) (text rest : List Char) :
    (text ++ w :: rest).dropWhile kind = text.dropWhile kind ++ w :: rest := by
  induction text with
  | nil => simp [hw]
  | cons c tail ih =>
    rw [List.cons_append, List.dropWhile_cons, List.dropWhile_cons]
    split
    · exact ih
    · rfl

theorem run?_break {kind : Char → Bool} (hw : kind w = false) (text rest : List Char) :
    run? kind (text ++ w :: rest) = run? kind text := by
  unfold run?
  rw [takeWhile_append_break hw]

/-- A spelling without the character `w` is found before it as at the end of the text. -/
theorem spelled?_break {spelling : List Char} {follows : List Char → Bool} (hw : w ∉ spelling)
    (hFollows : ∀ after, follows (after ++ w :: rest) = follows after) :
    spelled? spelling follows (text ++ w :: rest) = spelled? spelling follows text := by
  apply Option.ext
  intro lexeme
  rw [Rule.spelled?_eq_some_iff, Rule.spelled?_eq_some_iff]
  constructor
  · rintro ⟨rfl, after, hText, hAfter⟩
    refine ⟨rfl, ?_⟩
    rcases List.append_eq_append_iff.1 hText with ⟨more, hSpelling, hRest⟩ | ⟨behind, rfl, rfl⟩
    · cases more with
      | nil =>
        rw [List.append_nil] at hSpelling
        rw [List.nil_append] at hRest
        refine ⟨[], by rw [hSpelling, List.append_nil], ?_⟩
        rw [← hFollows, List.nil_append, hRest]
        exact hAfter
      | cons c tail =>
        -- The spelling would have to hold the blank itself.
        rw [List.cons_append] at hRest
        cases hRest
        rw [hSpelling] at hw
        exact absurd (by simp) hw
    · exact ⟨behind, rfl, by rwa [hFollows] at hAfter⟩
  · rintro ⟨rfl, after, rfl, hAfter⟩
    exact ⟨rfl, after ++ w :: rest, List.append_assoc _ _ _, by rwa [hFollows]⟩

theorem ne_of_isBlank {c : Char} (hw : isBlank w = true) (hc : isBlank c = false) : w ≠ c := by
  rintro rfl
  rw [hw] at hc
  cases hc

theorem endsKeyword_break (hw : isBlank w = true) (after rest : List Char) :
    endsKeyword (after ++ w :: rest) = endsKeyword after := by
  cases after with
  | nil => simp [endsKeyword, hw]
  | cons c tail => rfl

theorem endsTruth_break (hw : isBlank w = true) (after rest : List Char) :
    endsTruth (after ++ w :: rest) = endsTruth after := by
  have hComma : w ≠ ',' := ne_of_isBlank hw (by decide)
  have hClose : w ≠ ')' := ne_of_isBlank hw (by decide)
  cases after with
  | nil =>
    show endsTruth (w :: rest) = true
    unfold endsTruth
    split
    · rfl
    · rename_i hCons
      cases hCons
      exact absurd rfl hComma
    · rename_i hCons
      cases hCons
      rw [hw]
      rfl
  | cons c tail =>
    by_cases hc : c = ','
    · subst hc
      cases tail with
      | nil => simp [endsTruth, hClose]
      | cons d tail => rfl
    · simp [endsTruth]

theorem fraction?_break (hDigit : w.isDigit = false) (hPoint : w ≠ '.') (text rest : List Char) :
    fraction? (text ++ w :: rest) = fraction? text := by
  unfold fraction?
  rw [run?_break hDigit, dropWhile_append_break hDigit]
  cases text.dropWhile Char.isDigit with
  | nil => simp [hPoint]
  | cons c tail =>
    by_cases hc : c = '.'
    · subst hc
      cases run? Char.isDigit text <;> simp [run?_break hDigit]
    · simp [hc]

theorem Symbol.isBlank_of_mem_spelling (s : Symbol) :
    ∀ c ∈ s.spelling.toList, isBlank c = false := by
  have hAll : s.spelling.toList.all (fun c => !isBlank c) = true := by
    cases s <;> decide
  intro c hc
  simpa using List.all_eq_true.1 hAll c hc

theorem not_mem_of_isBlank {chars : List Char} (hw : isBlank w = true)
    (h : ∀ c ∈ chars, isBlank c = false) : w ∉ chars := by
  intro hMem
  rw [h w hMem] at hw
  cases hw

theorem not_isWordChar_of_isBlank (hw : isBlank w = true) : Rule.isWordChar w = false := by
  rw [Bool.eq_false_iff]
  intro hChar
  rw [isBlank_of_isWordChar hChar] at hw
  cases hw

/-- Before a blank each rule accepts what it accepts before the end. -/
theorem lexeme?_break (hw : isBlank w = true) {c : Char} (hc : isBlank c = false) (tail : List Char)
    (r : Rule) : r.lexeme? (c :: tail ++ w :: rest) = r.lexeme? (c :: tail) := by
  have hWord := not_isWordChar_of_isBlank hw
  have hDigit : w.isDigit = false := by
    rw [Bool.eq_false_iff]
    intro hDigit
    rw [isWordChar_of_isDigit hDigit] at hWord
    cases hWord
  cases r with
  | blanks =>
    have hNone : ∀ behind, run? isBlank (c :: behind) = none := by
      intro behind
      apply run?_eq_none
      rintro d ⟨⟩
      exact hc
    exact (hNone _).trans (hNone _).symm
  | keyword s =>
    exact spelled?_break (not_mem_of_isBlank hw s.isBlank_of_mem_spelling)
      fun after => endsKeyword_break hw after rest
  | mark s =>
    exact spelled?_break (not_mem_of_isBlank hw s.isBlank_of_mem_spelling) fun _ => rfl
  | truth b =>
    refine spelled?_break (not_mem_of_isBlank hw fun d hd => ?_)
      fun after => endsTruth_break hw after rest
    exact isBlank_of_isWordChar (Truth.isWordChar_of_mem b d hd)
  | fraction => exact fraction?_break hDigit (ne_of_isBlank hw (by decide)) _ _
  | digits => exact run?_break hDigit _ _
  | word => exact run?_break hWord _ _

theorem classify_blank (hw : isBlank w = true) {c : Char} (hc : isBlank c = false)
    (tail : List Char) : classify (c :: tail ++ w :: rest) = classify (c :: tail) := by
  have hFind : Rule.find? (c :: tail ++ w :: rest) = Rule.find? (c :: tail) := by
    funext r
    rw [Rule.find?, lexeme?_break hw hc, Rule.find?]
  rw [classify, hFind, classify]

/-! ## Blanks in front of a text -/

/-- A run of blanks is read first of all. -/
theorem classify_run {c : Char} (hc : isBlank c = true) (tail : List Char) :
    classify (c :: tail) = some (.whitespace, (c :: tail).takeWhile isBlank) := by
  have hRun : run? isBlank (c :: tail) = some ((c :: tail).takeWhile isBlank) := by
    rw [Rule.run?_eq_some_iff]
    refine ⟨rfl, ?_⟩
    rw [List.takeWhile_cons_of_pos hc]
    exact List.cons_ne_nil _ _
  rw [classify, Rule.all, List.findSome?_cons, Rule.find?, Rule.lexeme?, hRun]
  rfl

variable {r : Reading}

theorem tokensOf_run (hSkip : r.skipBlanks = true) (offset : Nat) (text : List Char) :
    r.tokensOf offset (Piece.scan text) =
      r.tokensOf (offset + byteLength (text.takeWhile isBlank))
        (Piece.scan (text.dropWhile isBlank)) := by
  cases text with
  | nil => rfl
  | cons c tail =>
    cases hc : isBlank c with
    | false =>
      rw [List.takeWhile_cons_of_neg (by simp [hc]), List.dropWhile_cons_of_neg (by simp [hc])]
      rfl
    | true =>
      have hDrop : (c :: tail).drop ((c :: tail).takeWhile isBlank).length =
          (c :: tail).dropWhile isBlank := by
        have hLeft : ((c :: tail).takeWhile isBlank ++ (c :: tail).dropWhile isBlank).drop
            ((c :: tail).takeWhile isBlank).length = (c :: tail).dropWhile isBlank := List.drop_left
        rwa [List.takeWhile_append_dropWhile] at hLeft
      have hDropped : r.token? .whitespace ((c :: tail).takeWhile isBlank) offset
          (offset + byteLength ((c :: tail).takeWhile isBlank)) = none := if_pos ⟨rfl, hSkip⟩
      rw [Piece.scan_of_classify (classify_run hc tail), hDrop, Reading.tokensOf, hDropped]
      rfl

/-- A blank in front of a text only moves the text. -/
theorem tokensOf_blank (hSkip : r.skipBlanks = true) {c : Char} (hc : isBlank c = true)
    (offset : Nat) (text : List Char) :
    r.tokensOf offset (Piece.scan (c :: text)) =
      r.tokensOf (offset + c.utf8Size) (Piece.scan text) := by
  rw [tokensOf_run hSkip, tokensOf_run hSkip (offset + c.utf8Size), List.takeWhile_cons_of_pos hc,
    List.dropWhile_cons_of_pos hc, Text.byteLength_cons, Nat.add_assoc]

/-! ## Two texts -/

theorem tokensOf_ne_nil (r : Reading) (offset : Nat) (pieces : List Piece) :
    r.tokensOf offset pieces ≠ [] := by
  induction pieces generalizing offset with
  | nil => exact List.cons_ne_nil _ _
  | cons piece rest ih =>
    cases piece with
    | stray c => exact ih _
    | lexeme k text =>
      rw [Reading.tokensOf]
      exact List.append_ne_nil_of_right_ne_nil _ (ih _)

/-- The tokens of a text are followed by the mark of its end, and none of them is one. -/
theorem tokensOf_eq (r : Reading) (offset : Nat) (text : List Char) :
    ∃ written, r.tokensOf offset (Piece.scan text) =
        written ++ [.endOfInput r.file (offset + byteLength text)] ∧
      ∀ t ∈ written, ¬ t.isEnd = true := by
  fun_induction Piece.scan text generalizing offset with
  | case1 =>
    refine ⟨[], rfl, ?_⟩
    rintro _ ⟨⟩
  | case2 c rest k found hFound ih =>
    obtain ⟨behind, hBehind⟩ := classify_isPrefix hFound
    rw [← hBehind, List.drop_left] at ih
    rw [← hBehind, List.drop_left, Text.byteLength_append, ← Nat.add_assoc]
    obtain ⟨written, hTokens, hWritten⟩ := ih (offset + byteLength found)
    refine ⟨(r.token? k found offset (offset + byteLength found)).toList ++ written, ?_, ?_⟩
    · rw [Reading.tokensOf, hTokens, List.append_assoc]
    · intro t ht
      rcases List.mem_append.1 ht with hFirst | hRest
      · unfold Reading.token? at hFirst
        split at hFirst
        · cases hFirst
        · cases List.mem_singleton.1 hFirst
          simpa [Token.isEnd] using tokenClass_ne_endOfInput_of_classify hFound
      · exact hWritten t hRest
  | case3 c rest hNone ih =>
    obtain ⟨written, hTokens, hWritten⟩ := ih (offset + c.utf8Size)
    rw [Text.byteLength_cons, ← Nat.add_assoc]
    exact ⟨written, hTokens, hWritten⟩

/-- A token of a text marks its end, or its lexeme stands at the front of a stretch of the text. -/
theorem classify_of_mem_tokensOf {offset : Nat} {text : List Char} {t : Token}
    (hMem : t ∈ r.tokensOf offset (Piece.scan text)) :
    t.tokenClass = .endOfInput ∨
      ∃ behind, classify behind = some (t.tokenClass, t.lexeme.toList) := by
  fun_induction Piece.scan text generalizing offset with
  | case1 =>
    rw [List.mem_singleton.1 hMem]
    exact Or.inl rfl
  | case2 c rest k found hFound ih =>
    rw [Reading.tokensOf] at hMem
    rcases List.mem_append.1 hMem with hHere | hBehind
    · rw [Reading.token?] at hHere
      split at hHere
      · cases hHere
      · cases List.mem_singleton.1 hHere
        exact Or.inr ⟨c :: rest, by rw [String.toList_ofList]; exact hFound⟩
    · exact ih hBehind
  | case3 c rest hNone ih => exact ih hMem

/-- What holds of the mark of the end and of the tokens that lexemes become holds of all tokens. -/
theorem forall_mem_tokensOf {P : Token → Prop} (hEnd : ∀ offset, P (.endOfInput r.file offset))
    (hLexeme : ∀ k lexeme start stop, ¬ (k = .whitespace ∧ r.skipBlanks = true) →
      P ⟨k, lexeme, .ofOffsets r.file start stop⟩) (offset : Nat) (pieces : List Piece) :
    ∀ t ∈ r.tokensOf offset pieces, P t := by
  induction pieces generalizing offset with
  | nil =>
    intro t hMem
    rw [List.mem_singleton.1 hMem]
    exact hEnd offset
  | cons piece rest ih =>
    cases piece with
    | stray c => exact ih _
    | lexeme k text =>
      intro t hMem
      rw [Reading.tokensOf] at hMem
      rcases List.mem_append.1 hMem with hHere | hBehind
      · rw [Reading.token?] at hHere
        split at hHere
        · cases hHere
        · rename_i hKept
          rw [List.mem_singleton.1 hHere]
          exact hLexeme _ _ _ _ hKept
      · exact ih _ t hBehind

theorem file_of_mem_tokensOf {offset : Nat} {pieces : List Piece} {t : Token}
    (hMem : t ∈ r.tokensOf offset pieces) : t.span.file = r.file :=
  forall_mem_tokensOf (P := fun t => t.span.file = r.file) (fun _ => rfl) (fun _ _ _ _ _ => rfl)
    offset pieces t hMem

theorem not_whitespace_of_mem_tokensOf (hSkip : r.skipBlanks = true) {offset : Nat}
    {pieces : List Piece} {t : Token} (hMem : t ∈ r.tokensOf offset pieces) :
    t.tokenClass ≠ .whitespace := by
  refine forall_mem_tokensOf (P := fun t => t.tokenClass ≠ .whitespace) ?_ ?_ offset pieces t hMem
  · exact fun _ => nofun
  · exact fun _ _ _ _ hKept hBlank => hKept ⟨hBlank, hSkip⟩

theorem exists_classify_of_mem_tokensOf {offset : Nat} {text : List Char} {t : Token}
    (hMem : t ∈ r.tokensOf offset (Piece.scan text)) (hEnd : t.isEnd = false) :
    ∃ behind, classify behind = some (t.tokenClass, t.lexeme.toList) := by
  apply (classify_of_mem_tokensOf hMem).resolve_left
  intro hClass
  rw [Token.isEnd, hClass] at hEnd
  cases hEnd

/-- If blanks are left out, no lexeme begins with one. -/
theorem exists_cons_of_mem_tokensOf (hSkip : r.skipBlanks = true) {offset : Nat} {text : List Char}
    {t : Token} (hMem : t ∈ r.tokensOf offset (Piece.scan text)) (hEnd : t.isEnd = false) :
    ∃ c more, t.lexeme.toList = c :: more ∧ isBlank c = false := by
  obtain ⟨behind, hFound⟩ := exists_classify_of_mem_tokensOf hMem hEnd
  obtain ⟨c, more, hLexeme⟩ := List.exists_cons_of_ne_nil (classify_ne_nil hFound)
  refine ⟨c, more, hLexeme, ?_⟩
  rw [Bool.eq_false_iff]
  intro hBlank
  obtain ⟨after, rfl⟩ := classify_isPrefix hFound
  rw [hLexeme, List.cons_append, classify_run hBlank] at hFound
  have hClass : TokenClass.whitespace = t.tokenClass :=
    congrArg Prod.fst (Option.some.inj hFound)
  exact not_whitespace_of_mem_tokensOf hSkip hMem hClass.symm

/-- The tokens of a text with another behind it, from which a blank parts it: those of the first
without its mark of the end, and those of the second. -/
theorem tokensOf_break (hSkip : r.skipBlanks = true) (hw : isBlank w = true) (offset : Nat)
    (text rest : List Char) :
    r.tokensOf offset (Piece.scan (text ++ w :: rest)) =
      (r.tokensOf offset (Piece.scan text)).dropLast ++
        r.tokensOf (offset + byteLength text + w.utf8Size) (Piece.scan rest) := by
  induction hLength : text.length using Nat.strongRecOn generalizing text offset with
  | ind n ih =>
    cases text with
    | nil =>
      rw [List.nil_append, tokensOf_blank hSkip hw, Piece.scan_nil]
      rfl
    | cons c tail =>
      have hShorter : tail.length < n := by
        rw [← hLength]
        exact Nat.lt_succ_self _
      cases hc : isBlank c with
      | true =>
        rw [List.cons_append, tokensOf_blank hSkip hc, tokensOf_blank hSkip hc,
          ih _ hShorter _ _ rfl, Text.byteLength_cons, Nat.add_assoc offset]
      | false =>
        cases hFound : classify (c :: tail) with
        | none =>
          have hBoth : classify (c :: (tail ++ w :: rest)) = none :=
            (classify_blank hw hc tail).trans hFound
          rw [List.cons_append, Piece.scan_of_stray hBoth, Piece.scan_of_stray hFound,
            Reading.tokensOf, Reading.tokensOf, ih _ hShorter _ _ rfl, Text.byteLength_cons,
            Nat.add_assoc offset]
        | some found =>
          obtain ⟨k, lexeme⟩ := found
          have hBoth : classify (c :: tail ++ w :: rest) = some (k, lexeme) :=
            (classify_blank hw hc tail).trans hFound
          obtain ⟨behind, hBehind⟩ := classify_isPrefix hFound
          have hBehindShorter : behind.length < n := by
            have hPos := List.length_pos_iff.2 (classify_ne_nil hFound)
            rw [← hLength, ← hBehind, List.length_append]
            omega
          rw [Piece.scan_of_classify hBoth, Piece.scan_of_classify hFound, ← hBehind,
            List.append_assoc, List.drop_left, List.drop_left, Reading.tokensOf, Reading.tokensOf,
            ih _ hBehindShorter _ _ rfl, List.dropLast_append_of_ne_nil (tokensOf_ne_nil _ _ _),
            Text.byteLength_append, ← Nat.add_assoc offset, List.append_assoc]

/-! ## Texts that begin further on -/

/-- The same token, by so many bytes further on in the same source. -/
structure Token.ShiftedBy (k : Nat) (t t' : Token) : Prop where
  tokenClass : t'.tokenClass = t.tokenClass
  lexeme : t'.lexeme = t.lexeme
  file : t'.span.file = t.span.file
  start : t'.span.start.toNat = t.span.start.toNat + k

/-- A stretch of a source is shifted as long as its offsets are no longer than 32 bits. -/
theorem shiftedBy_of_lt {k offset stop stop' : Nat} (hSize : offset + k < UInt32.size)
    (tokenClass : TokenClass) (lexeme file : String) :
    Token.ShiftedBy k ⟨tokenClass, lexeme, .ofOffsets file offset stop⟩
      ⟨tokenClass, lexeme, .ofOffsets file (offset + k) stop'⟩ := by
  refine ⟨rfl, rfl, rfl, ?_⟩
  show (UInt32.ofNat (offset + k)).toNat = (UInt32.ofNat offset).toNat + k
  rw [UInt32.toNat_ofNat_of_lt' hSize, UInt32.toNat_ofNat_of_lt' (by omega)]

/-- A text that begins further on has the same tokens there. -/
theorem tokensOf_shifted (r : Reading) (k offset : Nat) (pieces : List Piece)
    (hSize : offset + k + byteLength (pieces.flatMap Piece.text) < UInt32.size) :
    List.Forall₂ (Token.ShiftedBy k) (r.tokensOf offset pieces)
      (r.tokensOf (offset + k) pieces) := by
  induction pieces generalizing offset with
  | nil => exact .cons (shiftedBy_of_lt (by simpa using hSize) _ _ _) .nil
  | cons piece rest ih =>
    rw [List.flatMap_cons, Text.byteLength_append] at hSize
    cases piece with
    | stray c =>
      have hFront : byteLength (Piece.stray c).text = c.utf8Size := rfl
      rw [Reading.tokensOf, Reading.tokensOf, Nat.add_right_comm]
      exact ih _ (by omega)
    | lexeme tokenClass text =>
      have hFront : byteLength (Piece.lexeme tokenClass text).text = byteLength text := rfl
      have hRest := ih (offset + byteLength text) (by omega)
      rw [Nat.add_right_comm] at hRest
      rw [Reading.tokensOf, Reading.tokensOf]
      by_cases hDropped : tokenClass = .whitespace ∧ r.skipBlanks = true
      · rw [Reading.token?, if_pos hDropped, Reading.token?, if_pos hDropped]
        exact hRest
      · rw [Reading.token?, if_neg hDropped, Reading.token?, if_neg hDropped]
        exact .cons (shiftedBy_of_lt (by omega) _ _ _) hRest

end Frontend
