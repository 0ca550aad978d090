import Frontend.Token.Piece

/-!
# Lexemes in front of a text

What stands behind a lexeme decides whether the lexeme ends there. This module says, for each kind
of lexeme, what may follow it.

* `classify_of_before`: a rule decides where those in front of it refuse the text.
* `classify_keyword`, `classify_bracket`, `classify_operator`: a keyword needs a blank, an opening
  parenthesis or nothing behind it, a bracket or a semicolon needs nothing, and an operator must not
  be followed by a character that could make a longer one.
* `classify_name`: a word is read as a word or as a truth value, unless it is spelled like a keyword
  and what follows ends keywords.
* `classify_truth`: a truth value is read as one if what follows ends truth values.
* `classify_number`: digits are read as a number, unless a word or a fraction goes on with them.
-/

namespace Frontend

open Rule (isWordChar endsKeyword endsTruth endsMark spelled? run?)

/-! ## Characters and runs -/

theorem isWordChar_of_isDigit {c : Char} (h : c.isDigit = true) : isWordChar c = true := by
  simp [isWordChar, Char.isAlphanum, h]

/-- Word characters lie between the first digit and the last small letter. -/
theorem toNat_of_isWordChar {c : Char} (h : isWordChar c = true) :
    48 ≤ c.toNat ∧ c.toNat ≤ 122 := by
  have hKinds : (c.isUpper || c.isLower || c.isDigit || decide (c = '_')) = true := h
  simp only [Bool.or_eq_true, decide_eq_true_eq] at hKinds
  rcases hKinds with ((hUpper | hLower) | hDigit) | rfl
  · obtain ⟨hFirst, hLast⟩ : 'A'.val ≤ c.val ∧ c.val ≤ 'Z'.val := of_decide_eq_true hUpper
    exact ⟨Nat.le_trans (by decide) hFirst, Nat.le_trans hLast (by decide)⟩
  · obtain ⟨hFirst, hLast⟩ := (Bool.and_eq_true_iff (x := 'a'.val ≤ c.val)).1 hLower
    exact ⟨Nat.le_trans (by decide) (of_decide_eq_true hFirst),
      Nat.le_trans (of_decide_eq_true hLast) (by decide)⟩
  · obtain ⟨hFirst, hLast⟩ := (Bool.and_eq_true_iff (x := '0'.val ≤ c.val)).1 hDigit
    exact ⟨of_decide_eq_true hFirst, Nat.le_trans (of_decide_eq_true hLast) (by decide)⟩
  · decide

theorem isBlank_of_isWordChar {c : Char} (h : isWordChar c = true) : Text.isBlank c = false := by
  have hRange := toNat_of_isWordChar h
  simp only [Text.isBlank, Text.inRanges, Text.blankRanges, List.any_cons, List.any_nil,
    Bool.or_eq_false_iff, Bool.and_eq_false_iff, decide_eq_false_iff_not, and_true]
  omega

/-- A run ends where the next character is of another kind. -/
theorem takeWhile_exact {kind : Char → Bool} {front rest : List Char}
    (hFront : ∀ c ∈ front, kind c = true) (hRest : ∀ c ∈ rest.head?, kind c = false) :
    (front ++ rest).takeWhile kind = front ∧ (front ++ rest).dropWhile kind = rest := by
  rw [List.takeWhile_append_of_pos hFront, List.dropWhile_append_of_pos hFront]
  cases rest with
  | nil => simp
  | cons c rest => simp [hRest c rfl]

theorem run?_exact {kind : Char → Bool} {front rest : List Char} (hFront : front ≠ [])
    (hKind : ∀ c ∈ front, kind c = true) (hRest : ∀ c ∈ rest.head?, kind c = false) :
    run? kind (front ++ rest) = some front :=
  Rule.run?_eq_some_iff.2 ⟨(takeWhile_exact hKind hRest).1.symm, hFront⟩

theorem run?_eq_none {kind : Char → Bool} {text : List Char}
    (h : ∀ c ∈ text.head?, kind c = false) : run? kind text = none := by
  cases text with
  | nil => rfl
  | cons c rest => simp [run?, h c rfl]

/-! ## What is found -/

theorem classify_eq_none_iff {text : List Char} :
    classify text = none ↔ ∀ rule ∈ Rule.all, rule.lexeme? text = none := by
  simp only [classify, Rule.find?, List.findSome?_eq_none_iff, Option.map_eq_none_iff]

theorem tokenClass_ne_endOfInput_of_classify {text lexeme : List Char} {k : TokenClass}
    (h : classify text = some (k, lexeme)) : k ≠ .endOfInput := by
  obtain ⟨rule, -, -, rfl⟩ := exists_rule_of_classify h
  cases rule with
  | keyword s => cases s <;> decide
  | mark s => cases s <;> decide
  | blanks | truth _ | fraction | digits | word => simp [Rule.tokenClass]

theorem takeWhile_of_classify_whitespace {text lexeme : List Char}
    (h : classify text = some (.whitespace, lexeme)) : text.takeWhile Text.isBlank = lexeme := by
  obtain ⟨rule, -, hLexeme, hClass⟩ := exists_rule_of_classify h
  cases rule with
  | blanks => exact (Rule.run?_eq_some_iff.1 hLexeme).1.symm
  | keyword s => cases s <;> cases hClass
  | mark s => cases s <;> cases hClass
  | truth _ | fraction | digits | word => cases hClass

/-! ## Words -/

/-- The text begins with the word, and the word goes no further. -/
structure WordFront (word rest : List Char) : Prop where
  ne_nil : word ≠ []
  chars : ∀ c ∈ word, isWordChar c = true
  ends : ∀ c ∈ rest.head?, isWordChar c = false

variable {word rest lexeme : List Char}

theorem WordFront.head (h : WordFront word rest) :
    ∃ c tail, word = c :: tail ∧ isWordChar c = true := by
  obtain ⟨c, tail, rfl⟩ := List.exists_cons_of_ne_nil h.ne_nil
  exact ⟨c, tail, rfl, h.chars c List.mem_cons_self⟩

/-- A word that must end behind its spelling is accepted only as a whole, before the right rest. -/
theorem WordFront.eq_of_spelled {spelling : List Char} {follows : List Char → Bool}
    (h : WordFront word rest) (hSpelling : ∀ c ∈ spelling, isWordChar c = true)
    (hFollows : ∀ after, follows after = true → ∀ c ∈ after.head?, isWordChar c = false)
    (hAccepted : spelled? spelling follows (word ++ rest) = some lexeme) :
    word = spelling ∧ lexeme = spelling ∧ follows rest = true := by
  obtain ⟨rfl, after, hText, hAfter⟩ := Rule.spelled?_eq_some_iff.1 hAccepted
  have hWord := (takeWhile_exact h.chars h.ends).1
  rw [hText, (takeWhile_exact hSpelling (hFollows after hAfter)).1] at hWord
  subst hWord
  rw [List.append_cancel_left hText]
  exact ⟨rfl, rfl, hAfter⟩

theorem not_isWordChar_of_endsKeyword {after : List Char} (h : endsKeyword after = true) :
    ∀ c ∈ after.head?, isWordChar c = false := by
  rintro c hHead
  obtain ⟨tail, rfl⟩ := List.head?_eq_some_iff.1 hHead
  simp only [endsKeyword, Bool.or_eq_true, decide_eq_true_eq] at h
  rcases h with h | rfl
  · refine Bool.eq_false_iff.2 fun hChar => ?_
    rw [isBlank_of_isWordChar hChar] at h
    cases h
  · decide

theorem not_isWordChar_of_endsTruth {after : List Char} (h : endsTruth after = true) :
    ∀ c ∈ after.head?, isWordChar c = false := by
  rintro c hHead
  obtain ⟨tail, rfl⟩ := List.head?_eq_some_iff.1 hHead
  unfold endsTruth at h
  split at h
  · rename_i hNil
    cases hNil
  · rename_i hCons
    cases hCons
    decide
  · rename_i hCons
    cases hCons
    simp only [Bool.or_eq_true, decide_eq_true_eq] at h
    rcases h with h | rfl
    · refine Bool.eq_false_iff.2 fun hChar => ?_
      rw [isBlank_of_isWordChar hChar] at h
      cases h
    · decide

theorem Symbol.isWordChar_of_keyword {s : Symbol} (h : s.tokenClass = .keyword) :
    ∀ c ∈ s.spelling.toList, isWordChar c = true := by
  have hAll : s.spelling.toList.all isWordChar = true := by
    cases s <;> first | exact absurd h (by decide) | decide
  exact List.all_eq_true.1 hAll

theorem Symbol.not_isWordChar_head {s : Symbol} (h : s.tokenClass ≠ .keyword) :
    ∀ c ∈ s.spelling.toList.head?, isWordChar c = false := by
  intro c hc
  cases s <;> first | exact absurd rfl h | (cases hc; decide)

theorem Truth.isWordChar_of_mem (b : Bool) : ∀ c ∈ (Truth.text b).toList, isWordChar c = true := by
  have hAll : (Truth.text b).toList.all isWordChar = true := by
    cases b <;> decide
  exact List.all_eq_true.1 hAll

/-- In front of a word, only rules for words and for digits can accept. The rules that fix a
spelling accept the whole word. -/
theorem WordFront.rule_cases (h : WordFront word rest) {rule : Rule} (hMem : rule ∈ Rule.all)
    (hAccepted : rule.lexeme? (word ++ rest) = some lexeme) :
    (∃ s : Symbol, s.tokenClass = .keyword ∧ word = s.spelling.toList ∧ endsKeyword rest = true) ∨
      (∃ b, rule = .truth b ∧ word = (Truth.text b).toList ∧ lexeme = word) ∨
      rule = .fraction ∨ rule = .digits ∨ rule = .word := by
  obtain ⟨c, tail, rfl, hChar⟩ := h.head
  cases rule with
  | blanks =>
    have hNone : Rule.blanks.lexeme? (c :: tail ++ rest) = none :=
      run?_eq_none fun d hd => by cases hd; exact isBlank_of_isWordChar hChar
    rw [hNone] at hAccepted
    cases hAccepted
  | keyword s =>
    have hClass : s.tokenClass = .keyword := by
      revert hMem
      cases s <;> decide
    obtain ⟨hWord, -, hEnds⟩ := h.eq_of_spelled (Symbol.isWordChar_of_keyword hClass)
      (fun _ => not_isWordChar_of_endsKeyword) hAccepted
    exact Or.inl ⟨s, hClass, hWord, hEnds⟩
  | mark s =>
    have hClass : s.tokenClass ≠ .keyword := by
      revert hMem
      cases s <;> decide
    obtain ⟨-, after, hText, -⟩ := Rule.spelled?_eq_some_iff.1 hAccepted
    have hHead : c ∈ s.spelling.toList.head? := by
      obtain ⟨d, spelling, hSpelling⟩ : ∃ d spelling, s.spelling.toList = d :: spelling :=
        List.exists_cons_of_ne_nil (by cases s <;> decide)
      rw [hSpelling, List.cons_append, List.cons_append] at hText
      rw [hSpelling, (List.cons.inj hText).1]
      rfl
    rw [Symbol.not_isWordChar_head hClass c hHead] at hChar
    cases hChar
  | truth b =>
    obtain ⟨hWord, hLexeme, -⟩ := h.eq_of_spelled (Truth.isWordChar_of_mem b)
      (fun _ => not_isWordChar_of_endsTruth) hAccepted
    exact Or.inr (Or.inl ⟨b, rfl, hWord, hLexeme.trans hWord.symm⟩)
  | fraction => exact Or.inr (Or.inr (Or.inl rfl))
  | digits => exact Or.inr (Or.inr (Or.inr (Or.inl rfl)))
  | word => exact Or.inr (Or.inr (Or.inr (Or.inr rfl)))

/-- A word that does not begin with a digit is read as it stands, unless it is taken for a keyword.
It may be taken for a truth value if it reads like one. -/
theorem classify_name (h : WordFront word rest)
    (hDigit : ∀ c ∈ word.head?, c.isDigit = false)
    (hKeyword : ∀ s : Symbol, s.tokenClass = .keyword → word = s.spelling.toList →
      endsKeyword rest = false) :
    classify (word ++ rest) = some (.identifier, word) ∨
      classify (word ++ rest) = some (.boolean, word) ∧ ∃ b, word = (Truth.text b).toList := by
  have hAccepted : Rule.word.lexeme? (word ++ rest) = some word :=
    run?_exact h.ne_nil h.chars h.ends
  have hHead : ∀ c ∈ (word ++ rest).head?, c.isDigit = false := by
    obtain ⟨c, tail, rfl, -⟩ := h.head
    exact hDigit
  -- Which rule comes first does not matter: all that accept here take the whole word.
  obtain ⟨⟨k, lexeme⟩, hFound⟩ : ∃ found, classify (word ++ rest) = some found :=
    Option.ne_none_iff_exists'.1 fun hNone => by
      have hFind := List.findSome?_eq_none_iff.1 hNone .word (by decide)
      simp [Rule.find?, hAccepted] at hFind
  rw [hFound]
  obtain ⟨rule, hMem, hLexeme, rfl⟩ := exists_rule_of_classify hFound
  rcases h.rule_cases hMem hLexeme with ⟨s, hs, hWord, hEnds⟩ | ⟨b, rfl, hWord, rfl⟩ | rfl |
    rfl | rfl
  · rw [hKeyword s hs hWord] at hEnds
    cases hEnds
  · exact Or.inr ⟨rfl, b, hWord⟩
  · obtain ⟨whole, -, -, hWhole, -⟩ := Rule.fraction?_eq_some_iff.1 hLexeme
    rw [run?_eq_none hHead] at hWhole
    cases hWhole
  · rw [show Rule.digits.lexeme? (word ++ rest) = none from run?_eq_none hHead] at hLexeme
    cases hLexeme
  · rw [hAccepted] at hLexeme
    cases hLexeme
    exact Or.inl rfl

/-! ## The rule that decides -/

/-- The first rule that accepts decides. -/
theorem classify_of_first {text : List Char} {rule : Rule} {before after : List Rule}
    (hAll : Rule.all = before ++ rule :: after)
    (hBefore : ∀ earlier ∈ before, earlier.lexeme? text = none)
    (h : rule.lexeme? text = some lexeme) : classify text = some (rule.tokenClass, lexeme) := by
  have hNone : before.findSome? (Rule.find? text) = none := by
    refine List.findSome?_eq_none_iff.2 fun earlier hMem => ?_
    rw [Rule.find?, hBefore earlier hMem]
    rfl
  rw [classify, hAll, List.findSome?_append, hNone, List.findSome?_cons, Rule.find?, h]
  rfl

/-- The rules that stand in front of the given one. -/
def Rule.before (rule : Rule) : List Rule :=
  Rule.all.takeWhile (· ≠ rule)

theorem Rule.exists_all_eq {rule : Rule} (h : rule ∈ Rule.all) :
    ∃ after, Rule.all = rule.before ++ rule :: after := by
  obtain ⟨front, after, hAll, hFront⟩ := List.eq_append_cons_of_mem h
  have hBefore : rule.before = front := by
    have hOther : ∀ earlier ∈ front, decide (earlier ≠ rule) = true := by
      intro earlier hMem
      exact decide_eq_true fun hSame => hFront (hSame ▸ hMem)
    rw [before, hAll, List.takeWhile_append_of_pos hOther, List.takeWhile_cons_of_neg (by simp),
      List.append_nil]
  exact ⟨after, hBefore ▸ hAll⟩

/-- The rule decides if all that stand in front of it refuse the text. -/
theorem classify_of_before {text : List Char} {rule : Rule} (hMem : rule ∈ Rule.all)
    (hBefore : rule.before.all (fun earlier => (earlier.lexeme? text).isNone) = true)
    (h : rule.lexeme? text = some lexeme) : classify text = some (rule.tokenClass, lexeme) := by
  obtain ⟨after, hAll⟩ := Rule.exists_all_eq hMem
  refine classify_of_first hAll (fun earlier hEarlier => ?_) h
  exact Option.isNone_iff_eq_none.1 (List.all_eq_true.1 hBefore earlier hEarlier)

/-! ## Numbers -/

theorem classify_number (hWord : word ≠ []) (hDigits : ∀ c ∈ word, c.isDigit = true)
    (hRest : ∀ c ∈ rest.head?, isWordChar c = false ∧ c ≠ '.') :
    classify (word ++ rest) = some (.number, word) := by
  have hFront : WordFront word rest :=
    ⟨hWord, fun c hc => isWordChar_of_isDigit (hDigits c hc), fun c hc => (hRest c hc).1⟩
  have hEnds : ∀ c ∈ rest.head?, c.isDigit = false := by
    intro c hc
    refine Bool.eq_false_iff.2 fun hDigit => ?_
    have hChar := (hRest c hc).1
    rw [isWordChar_of_isDigit hDigit] at hChar
    cases hChar
  have hNotDigits : ∀ lexeme : List Char, (∀ c ∈ lexeme.head?, c.isDigit = false) →
      word ≠ lexeme := by
    rintro _ hHead rfl
    obtain ⟨c, tail, rfl, -⟩ := hFront.head
    have hDigit := hDigits c List.mem_cons_self
    rw [hHead c rfl] at hDigit
    cases hDigit
  -- The rule for words accepts here too, but stands behind the rule for digits.
  have hAll : Rule.all = Rule.all.takeWhile (· ≠ .digits) ++ Rule.digits :: [.word] := rfl
  refine classify_of_first hAll ?_ (run?_exact hWord hDigits hEnds)
  intro earlier hMem
  refine Option.eq_none_iff_forall_ne_some.2 fun lexeme hAccepted => ?_
  have hMemAll : earlier ∈ Rule.all := List.takeWhile_subset _ hMem
  rcases hFront.rule_cases hMemAll hAccepted with ⟨s, hs, hSpelled, -⟩ | ⟨b, -, hSpelled, -⟩ |
    rfl | rfl | rfl
  · refine hNotDigits _ (fun c hc => ?_) hSpelled
    cases s <;> first | exact absurd hs (by decide) | (cases hc; decide)
  · refine hNotDigits _ (fun c hc => ?_) hSpelled
    cases b <;> (cases hc; decide)
  · obtain ⟨-, behind, -, -, hPoint, -⟩ := Rule.fraction?_eq_some_iff.1 hAccepted
    rw [(takeWhile_exact hDigits hEnds).2] at hPoint
    exact (hRest '.' (by rw [hPoint]; rfl)).2 rfl
  · exact absurd hMem (by decide)
  · exact absurd hMem (by decide)

/-- A number begins with digits, and with a point behind them if it has a fraction. -/
theorem exists_digits_of_classify {text : List Char} (h : classify text = some (.number, lexeme)) :
    ∃ whole tail, lexeme = whole ++ tail ∧ whole ≠ [] ∧ (∀ c ∈ whole, c.isDigit = true) ∧
      (tail = [] ∨ '.' ∈ tail) := by
  obtain ⟨rule, -, hLexeme, hClass⟩ := exists_rule_of_classify h
  have hRun : ∀ {part : List Char}, run? Char.isDigit text = some part →
      part ≠ [] ∧ ∀ c ∈ part, c.isDigit = true := by
    intro part hPart
    obtain ⟨hTaken, hPart⟩ := Rule.run?_eq_some_iff.1 hPart
    refine ⟨hPart, ?_⟩
    rw [hTaken]
    exact List.all_eq_true.1 List.all_takeWhile
  cases rule with
  | digits =>
    obtain ⟨hText, hDigits⟩ := hRun hLexeme
    exact ⟨lexeme, [], (List.append_nil _).symm, hText, hDigits, Or.inl rfl⟩
  | fraction =>
    obtain ⟨whole, rest, part, hWhole, -, -, rfl⟩ := Rule.fraction?_eq_some_iff.1 hLexeme
    obtain ⟨hText, hDigits⟩ := hRun hWhole
    exact ⟨whole, '.' :: part, rfl, hText, hDigits, Or.inr List.mem_cons_self⟩
  | keyword s => cases s <;> cases hClass
  | mark s => cases s <;> cases hClass
  | _ => cases hClass

/-- What is read as a truth value is spelled like one. -/
theorem exists_truth_of_classify {text : List Char} (h : classify text = some (.boolean, lexeme)) :
    ∃ b, lexeme = (Truth.text b).toList := by
  obtain ⟨rule, -, hLexeme, hClass⟩ := exists_rule_of_classify h
  cases rule with
  | truth b => exact ⟨b, (Rule.spelled?_eq_some_iff.1 hLexeme).1⟩
  | keyword s => cases s <;> cases hClass
  | mark s => cases s <;> cases hClass
  | _ => cases hClass

/-- A truth value is read as one where it ends in the required way. -/
theorem classify_truth {b : Bool} (hRest : endsTruth rest = true) :
    classify ((Truth.text b).toList ++ rest) = some (.boolean, (Truth.text b).toList) := by
  have hMem : Rule.truth b ∈ Rule.all := by
    cases b <;> decide
  refine classify_of_before hMem ?_ (Rule.spelled?_eq_some_iff.2 ⟨rfl, rest, rfl, hRest⟩)
  cases b <;> rfl

/-- Elsewhere it is read as a name. -/
theorem classify_truth_name {b : Bool} (hEnds : ∀ c ∈ rest.head?, isWordChar c = false)
    (hRest : endsTruth rest = false) :
    classify ((Truth.text b).toList ++ rest) = some (.identifier, (Truth.text b).toList) := by
  have hFront : WordFront (Truth.text b).toList rest :=
    ⟨by cases b <;> decide, Truth.isWordChar_of_mem b, hEnds⟩
  have hDigit : ∀ c ∈ (Truth.text b).toList.head?, c.isDigit = false := by
    intro c hc
    cases b <;> (cases hc; decide)
  have hKeyword : ∀ s : Symbol, s.tokenClass = .keyword →
      (Truth.text b).toList ≠ s.spelling.toList := by
    intro s
    cases b <;> cases s <;> decide
  rcases classify_name hFront hDigit fun s hs hWord => absurd hWord (hKeyword s hs) with
    hName | ⟨hTruth, -⟩
  · exact hName
  · obtain ⟨rule, hMem, hLexeme, hClass⟩ := exists_rule_of_classify hTruth
    cases rule with
    | truth b' =>
      obtain ⟨-, -, hFollows⟩ := hFront.eq_of_spelled (Truth.isWordChar_of_mem b')
        (fun _ => not_isWordChar_of_endsTruth) hLexeme
      rw [hRest] at hFollows
      cases hFollows
    | keyword s => cases s <;> cases hClass
    | mark s => cases s <;> cases hClass
    | _ => cases hClass

/-! ## Symbols -/

theorem classify_keyword {s : Symbol} (hs : s.tokenClass = .keyword)
    (hRest : endsKeyword rest = true) :
    classify (s.spelling.toList ++ rest) = some (s.tokenClass, s.spelling.toList) := by
  have hMem : Rule.keyword s ∈ Rule.all := by
    cases s <;> first | decide | cases hs
  refine classify_of_before hMem ?_ (Rule.spelled?_eq_some_iff.2 ⟨rfl, rest, rfl, hRest⟩)
  cases s <;> first | rfl | cases hs

/-- The brackets. -/
def Symbol.brackets : List Symbol :=
  [openParen, closeParen, openCurly, closeCurly]

theorem classify_bracket {s : Symbol} (rest : List Char)
    (hs : s = .semicolon ∨ s ∈ Symbol.brackets) :
    classify (s.spelling.toList ++ rest) = some (s.tokenClass, s.spelling.toList) := by
  cases s with
  | semicolon | openParen | closeParen | openCurly | closeCurly => rfl
  | _ => simp [Symbol.brackets] at hs

/-- A mark is read in front of anything but the character that another one goes on with, if that
is the only rule in front of it which could accept there. -/
theorem classify_mark_of_shorter {s : Symbol} (longer : Symbol) {c : Char}
    (hMem : Rule.mark s ∈ Rule.all) (hSpelling : longer.spelling.toList = s.spelling.toList ++ [c])
    (hOthers : ((Rule.mark s).before.filter (· ≠ .mark longer)).all
      (fun earlier => (earlier.lexeme? (s.spelling.toList ++ rest)).isNone) = true)
    (hRest : ∀ d ∈ rest.head?, d ≠ c) :
    classify (s.spelling.toList ++ rest) = some (s.tokenClass, s.spelling.toList) := by
  have hLonger : (Rule.mark longer).lexeme? (s.spelling.toList ++ rest) = none := by
    refine Option.eq_none_iff_forall_ne_some.2 fun lexeme hAccepted => ?_
    obtain ⟨-, after, hText, -⟩ := Rule.spelled?_eq_some_iff.1 hAccepted
    rw [hSpelling, List.append_assoc] at hText
    rw [List.append_cancel_left hText] at hRest
    exact hRest c rfl rfl
  refine classify_of_before hMem ?_ (Rule.spelled?_eq_some_iff.2 ⟨rfl, rest, rfl, rfl⟩)
  refine List.all_eq_true.2 fun earlier hEarlier => ?_
  by_cases hSame : earlier = .mark longer
  · rw [hSame, hLonger]
    rfl
  · exact List.all_eq_true.1 hOthers earlier
      (List.mem_filter.2 ⟨hEarlier, decide_eq_true hSame⟩)

/-- An operator of one character is not the beginning of a longer one. -/
theorem classify_operator {s : Symbol} (hs : s.tokenClass = .operator ∨ s = .assignment)
    (hRest : ∀ c ∈ rest.head?, c ∉ ['=', '+', '-']) :
    classify (s.spelling.toList ++ rest) = some (s.tokenClass, s.spelling.toList) := by
  have hOther : ∀ c ∈ ['=', '+', '-'], ∀ d ∈ rest.head?, d ≠ c :=
    fun c hc d hd hSame => hRest d hd (hSame ▸ hc)
  cases s with
  | plusPlus | minusMinus | star | slash | equals | notEquals | lessEquals | greaterEquals => rfl
  | plus =>
    exact classify_mark_of_shorter .plusPlus (by decide) rfl rfl (hOther '+' (by decide))
  | dash =>
    exact classify_mark_of_shorter .minusMinus (by decide) rfl rfl (hOther '-' (by decide))
  | less =>
    exact classify_mark_of_shorter .lessEquals (by decide) rfl rfl (hOther '=' (by decide))
  | greater =>
    exact classify_mark_of_shorter .greaterEquals (by decide) rfl rfl (hOther '=' (by decide))
  | bang =>
    exact classify_mark_of_shorter .notEquals (by decide) rfl rfl (hOther '=' (by decide))
  | assignment =>
    exact classify_mark_of_shorter .equals (by decide) rfl rfl (hOther '=' (by decide))
  | _ => simp [Symbol.tokenClass] at hs

end Frontend
