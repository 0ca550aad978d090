import Mathlib.Data.List.MinMax
import Frontend.Proofs.Token.Break
import Frontend.Proofs.Tree.Spelling

/-!
# Reading by the first character

The lexical rules overlap, and their order decides between them. Read by its first character, a text
needs no order: the character says of what kind the lexeme is, and the lexeme is as long as its kind
allows. A word is taken as a whole, and only then is it told what kind of word it is.

* `munch`: this reading.
* `classify_word`, `classify_digit`, `classify_mark`: what the rules find at the front of a word, of
  a number and elsewhere.
* `classify_eq_munch`: the ordered rules give the reading by the first character. So the classes of
  the lexemes that stand for a symbol are the classes of the symbols, and no other.
-/

namespace Frontend

open Rule (isWordChar endsKeyword endsTruth endsMark spelled? run? fraction?)
open Text (isBlank)

/-! ## The reading -/

/-- Whether a keyword is over: the text behind it is empty or begins with a blank or an opening
parenthesis. -/
def keywordIsOver (rest : List Char) : Bool :=
  rest.head?.all fun c => isBlank c || c = '('

/-- Whether a truth value is over: the text behind it is empty or begins with a blank, a semicolon,
or a comma and a closing parenthesis. -/
def truthIsOver (rest : List Char) : Bool :=
  (rest.head?.all fun c => isBlank c || c = ';') || [',', ')'].isPrefixOf rest

/-- The class of a word in front of a text. -/
def wordClass (word : String) (rest : List Char) : TokenClass :=
  if spellsKeyword word && keywordIsOver rest then .keyword
  else if spellsTruth word && truthIsOver rest then .boolean
  else .identifier

/-- The digits that the text begins with, and the point and the digits that go on with them. -/
def numeral (text : List Char) : List Char :=
  let whole := text.takeWhile Char.isDigit
  match text.dropWhile Char.isDigit with
  | '.' :: rest =>
    if rest.head?.any Char.isDigit then whole ++ '.' :: rest.takeWhile Char.isDigit else whole
  | _ => whole

/-- The operators and the punctuation marks. -/
def Symbol.marks : List Symbol :=
  all.filter fun s => s.tokenClass ≠ .keyword

/-- The longest of the operators and punctuation marks that the text begins with. -/
def longestMark? (text : List Char) : Option Symbol :=
  (Symbol.marks.filter fun s => s.spelling.toList.isPrefixOf text).argmax
    fun s => s.spelling.toList.length

/-- The class and the lexeme at the front of a text, by its first character. -/
def munch : List Char → Option (TokenClass × List Char)
  | [] => none
  | c :: tail =>
    if isBlank c then some (.whitespace, (c :: tail).takeWhile isBlank)
    else if c.isDigit then some (.number, numeral (c :: tail))
    else if isWordChar c then
      some (wordClass (String.ofList ((c :: tail).takeWhile isWordChar))
        ((c :: tail).dropWhile isWordChar), (c :: tail).takeWhile isWordChar)
    else (longestMark? (c :: tail)).map fun s => (s.tokenClass, s.spelling.toList)

theorem keywordIsOver_eq (rest : List Char) : keywordIsOver rest = endsKeyword rest := by
  cases rest with
  | nil => rfl
  | cons c tail => rfl

theorem truthIsOver_eq (rest : List Char) : truthIsOver rest = endsTruth rest := by
  cases rest with
  | nil => rfl
  | cons c tail =>
    by_cases hComma : c = ','
    · subst hComma
      have hBlank : isBlank ',' = false := by decide
      cases tail with
      | nil => simp [truthIsOver, endsTruth, hBlank]
      | cons d others =>
        have hMine : truthIsOver (',' :: d :: others) = (')' == d) := by
          simp [truthIsOver, hBlank, List.isPrefixOf]
        have hRule : endsTruth (',' :: d :: others) = decide (d = ')') := by
          simp [endsTruth]
        rw [hMine, hRule, Bool.eq_iff_iff, beq_iff_eq, decide_eq_true_eq, eq_comm]
    · simp [truthIsOver, endsTruth, List.isPrefixOf, Ne.symm hComma]

variable {c : Char} {text tail word rest : List Char}

/-! ## Words -/

/-- A word that does not begin with a digit is a keyword, a truth value or a name. -/
theorem classify_word (h : WordFront word rest) (hDigit : ∀ c ∈ word.head?, c.isDigit = false) :
    classify (word ++ rest) = some (wordClass (String.ofList word) rest, word) := by
  unfold wordClass
  rw [keywordIsOver_eq, truthIsOver_eq]
  split
  · rename_i hKeyword
    obtain ⟨hSpelled, hOver⟩ := Bool.and_eq_true_iff.1 hKeyword
    obtain ⟨s, hClass, hWord⟩ := spellsKeyword_iff.1 hSpelled
    have hText : word = s.spelling.toList := by rw [← hWord, String.toList_ofList]
    rw [hText, classify_keyword hClass hOver, hClass]
  · rename_i hNoKeyword
    have hKeyword : ∀ s : Symbol, s.tokenClass = .keyword → word = s.spelling.toList →
        endsKeyword rest = false := by
      rintro s hClass rfl
      refine Bool.eq_false_iff.2 fun hOver => hNoKeyword ?_
      rw [String.ofList_toList, hOver, Bool.and_true]
      exact spellsKeyword_iff.2 ⟨s, hClass, rfl⟩
    by_cases hTruth : ∃ b, word = (Truth.text b).toList
    · obtain ⟨b, rfl⟩ := hTruth
      have hSpelled : spellsTruth (String.ofList (Truth.text b).toList) = true := by
        rw [String.ofList_toList]
        exact spellsTruth_iff.2 ⟨b, rfl⟩
      rw [hSpelled, Bool.true_and]
      cases hOver : endsTruth rest with
      | true => exact classify_truth hOver
      | false => exact classify_truth_name h.ends hOver
    · have hNoTruth : spellsTruth (String.ofList word) = false := by
        refine Bool.eq_false_iff.2 fun hSpelled => ?_
        obtain ⟨b, hWord⟩ := spellsTruth_iff.1 hSpelled
        exact hTruth ⟨b, by rw [← hWord, String.toList_ofList]⟩
      rw [hNoTruth, Bool.false_and]
      rcases classify_name h hDigit hKeyword with hName | ⟨-, hRead⟩
      · exact hName
      · exact absurd hRead hTruth

/-- The word that a text begins with. -/
theorem wordFront_takeWhile (hc : isWordChar c = true) (tail : List Char) :
    WordFront ((c :: tail).takeWhile isWordChar) ((c :: tail).dropWhile isWordChar) := by
  refine ⟨?_, List.all_eq_true.1 List.all_takeWhile, ?_⟩
  · rw [List.takeWhile_cons_of_pos hc]
    exact List.cons_ne_nil _ _
  · intro d hd
    have hNot := List.head?_dropWhile_not isWordChar (c :: tail)
    rw [Option.mem_def.1 hd] at hNot
    simpa using hNot

/-! ## Numbers -/

theorem not_isDigit_spelling (s : Symbol) : ∀ c ∈ s.spelling.toList.head?, c.isDigit = false := by
  intro c hc
  cases s <;> (cases hc; decide)

/-- In front of a digit only the rules for numbers and for words accept. -/
theorem rule_of_digit (hc : c.isDigit = true) {rule : Rule} (hMem : rule ∈ Rule.all)
    {lexeme : List Char} (h : rule.lexeme? (c :: tail) = some lexeme) :
    rule = .fraction ∨ rule = .digits ∨ rule = .word := by
  have hWord := isWordChar_of_isDigit hc
  have hFront := wordFront_takeWhile hWord tail
  have hHead : c ∈ ((c :: tail).takeWhile isWordChar).head? := by
    rw [List.takeWhile_cons_of_pos hWord]
    rfl
  rw [← List.takeWhile_append_dropWhile (p := isWordChar) (l := c :: tail)] at h
  rcases hFront.rule_cases hMem h with ⟨s, -, hSpelled, -⟩ | ⟨b, -, hSpelled, -⟩ | hRule
  · rw [hSpelled] at hHead
    rw [not_isDigit_spelling s c hHead] at hc
    cases hc
  · rw [hSpelled] at hHead
    cases b <;> (cases hHead; cases hc)
  · exact hRule

theorem run?_digits (hc : c.isDigit = true) (tail : List Char) :
    run? Char.isDigit (c :: tail) = some ((c :: tail).takeWhile Char.isDigit) := by
  rw [Rule.run?_eq_some_iff, List.takeWhile_cons_of_pos hc]
  exact ⟨rfl, List.cons_ne_nil _ _⟩

theorem numeral_eq (hc : c.isDigit = true) (tail : List Char) :
    numeral (c :: tail) =
      (fraction? (c :: tail)).getD ((c :: tail).takeWhile Char.isDigit) := by
  unfold numeral fraction?
  rw [run?_digits hc]
  cases (c :: tail).dropWhile Char.isDigit with
  | nil => rfl
  | cons point behind =>
    by_cases hPoint : point = '.'
    · subst hPoint
      cases behind with
      | nil => rfl
      | cons d others =>
        cases hd : d.isDigit with
        | true => simp [run?, hd]
        | false => simp [run?, hd]
    · simp [hPoint]

/-- A number is read with its fraction, if it has one, since the rule for fractions comes first. -/
theorem classify_digit (hc : c.isDigit = true) (tail : List Char) :
    classify (c :: tail) = some (.number, numeral (c :: tail)) := by
  rw [numeral_eq hc]
  have hNone : ∀ earlier ∈ Rule.all.takeWhile (· ≠ .fraction),
      earlier.lexeme? (c :: tail) = none := by
    intro earlier hMem
    refine Option.eq_none_iff_forall_ne_some.2 fun lexeme hAccepted => ?_
    rcases rule_of_digit hc (List.takeWhile_subset _ hMem) hAccepted with rfl | rfl | rfl
    · exact absurd hMem (by decide)
    · exact absurd hMem (by decide)
    · exact absurd hMem (by decide)
  cases hFraction : fraction? (c :: tail) with
  | some lexeme =>
    have hAll : Rule.all =
        Rule.all.takeWhile (· ≠ .fraction) ++ Rule.fraction :: [.digits, .word] := rfl
    exact classify_of_first hAll hNone hFraction
  | none =>
    have hAll : Rule.all =
        (Rule.all.takeWhile (· ≠ .fraction) ++ [.fraction]) ++ Rule.digits :: [.word] := rfl
    refine classify_of_first hAll ?_ (run?_digits hc tail)
    intro earlier hMem
    rcases List.mem_append.1 hMem with hBefore | hLast
    · exact hNone earlier hBefore
    · rw [List.mem_singleton.1 hLast]
      exact hFraction

/-! ## Operators and punctuation marks -/

/-- The spelling of the operator or punctuation mark that a rule is for. -/
def Rule.mark? : Rule → Option (List Char)
  | mark s => some s.spelling.toList
  | _ => none

/-- No rule stands before one for a longer mark that begins with its own. -/
theorem pairwise_mark? :
    Rule.all.Pairwise fun r r' => ∀ a ∈ r.mark?, ∀ b ∈ r'.mark?, ¬ a <+: b := by
  decide

theorem mem_marks_iff {s : Symbol} : s ∈ Symbol.marks ↔ .mark s ∈ Rule.all := by
  cases s <;> decide

/-- In front of a character that is neither a blank nor stands in words, only the rules for
operators and punctuation marks accept. -/
theorem mark_of_rule (hBlank : isBlank c = false) (hWord : isWordChar c = false) {rule : Rule}
    (hMem : rule ∈ Rule.all) {lexeme : List Char} (h : rule.lexeme? (c :: tail) = some lexeme) :
    ∃ s, rule = .mark s ∧ lexeme = s.spelling.toList ∧ s.spelling.toList <+: c :: tail := by
  have hDigit : c.isDigit = false := by
    refine Bool.eq_false_iff.2 fun hDigit => ?_
    rw [isWordChar_of_isDigit hDigit] at hWord
    cases hWord
  -- A spelling that is found here begins with the character.
  have hFirst : ∀ {spelling : List Char} {follows : List Char → Bool},
      (∀ d ∈ spelling, isWordChar d = true) → spelling ≠ [] →
        spelled? spelling follows (c :: tail) ≠ some lexeme := by
    intro spelling follows hChars hNonempty hSpelled
    obtain ⟨-, behind, hText, -⟩ := Rule.spelled?_eq_some_iff.1 hSpelled
    obtain ⟨d, others, rfl⟩ := List.exists_cons_of_ne_nil hNonempty
    rw [(List.cons.inj hText).1, hChars d List.mem_cons_self] at hWord
    cases hWord
  have hRun : ∀ {kind : Char → Bool}, kind c = false → run? kind (c :: tail) ≠ some lexeme := by
    intro kind hKind hFound
    rw [run?_eq_none (by rintro d ⟨⟩; exact hKind)] at hFound
    cases hFound
  cases rule with
  | mark s =>
    obtain ⟨hLexeme, behind, hText, -⟩ := Rule.spelled?_eq_some_iff.1 h
    exact ⟨s, rfl, hLexeme, behind, hText.symm⟩
  | keyword s =>
    have hClass : s.tokenClass = .keyword := by
      revert hMem
      cases s <;> decide
    exact absurd h (hFirst (Symbol.isWordChar_of_keyword hClass) (by cases s <;> decide))
  | truth b => exact absurd h (hFirst (Truth.isWordChar_of_mem b) (by cases b <;> decide))
  | fraction =>
    obtain ⟨whole, -, -, hWhole, -⟩ := Rule.fraction?_eq_some_iff.1 h
    rw [run?_eq_none (by rintro d ⟨⟩; exact hDigit)] at hWhole
    cases hWhole
  | blanks => exact absurd h (hRun hBlank)
  | digits => exact absurd h (hRun hDigit)
  | word => exact absurd h (hRun hWord)

theorem lexeme?_mark {s : Symbol} (h : s.spelling.toList <+: text) :
    (Rule.mark s).lexeme? text = some s.spelling.toList := by
  obtain ⟨behind, rfl⟩ := h
  exact Rule.spelled?_eq_some_iff.2 ⟨rfl, behind, rfl, rfl⟩

/-- The marks that stand behind a rule which accepts are not longer than its own. -/
theorem longestMark?_of_first {s : Symbol} {before after : List Rule}
    (hAll : Rule.all = before ++ .mark s :: after)
    (hBefore : ∀ earlier ∈ before, earlier.lexeme? text = none)
    (h : s.spelling.toList <+: text) : longestMark? text = some s := by
  have hOrder := pairwise_mark?
  rw [hAll, List.pairwise_append] at hOrder
  have hLater := List.pairwise_cons.1 hOrder.2.1
  -- Any other mark that is found here comes later, and so is not longer.
  have hLe : ∀ s' ∈ Symbol.marks, s'.spelling.toList <+: text →
      s'.spelling.toList.length ≤ s.spelling.toList.length := by
    intro s' hMem hFound
    rw [mem_marks_iff, hAll, List.mem_append, List.mem_cons] at hMem
    rcases hMem with hEarlier | hSame | hAfter
    · have hNone := hBefore _ hEarlier
      rw [lexeme?_mark hFound] at hNone
      cases hNone
    · rw [Rule.mark.inj hSame]
    · refine Nat.le_of_lt (Nat.lt_of_not_le fun hLonger => ?_)
      exact hLater.1 _ hAfter _ rfl _ rfl (List.prefix_of_prefix_length_le h hFound hLonger)
  have hFound : ∀ {s'}, s' ∈ Symbol.marks.filter (fun s => s.spelling.toList.isPrefixOf text) ↔
      s' ∈ Symbol.marks ∧ s'.spelling.toList <+: text := by
    intro s'
    rw [List.mem_filter, List.isPrefixOf_iff_prefix]
  have hMark : s ∈ Symbol.marks := by
    rw [mem_marks_iff, hAll]
    simp
  refine List.argmax_eq_some_iff.2 ⟨hFound.2 ⟨hMark, h⟩, ?_, ?_⟩
  · intro s' hs'
    exact hLe s' (hFound.1 hs').1 (hFound.1 hs').2
  · -- A mark that is as long has the same spelling, and so it is the same.
    intro s' hs' hLonger
    have hSame : s.spelling.toList = s'.spelling.toList :=
      (List.prefix_of_prefix_length_le h (hFound.1 hs').2 hLonger).eq_of_length_le
        (hLe s' (hFound.1 hs').1 (hFound.1 hs').2)
    have hSpelling : s.spelling = s'.spelling := String.toList_inj.1 hSame
    have hSymbol : s' = s := by
      have hRead := Symbol.ofSpelling?_spelling s'
      rw [← hSpelling, Symbol.ofSpelling?_spelling] at hRead
      exact (Option.some.inj hRead).symm
    rw [hSymbol]

theorem classify_mark (hBlank : isBlank c = false) (hWord : isWordChar c = false)
    (tail : List Char) :
    classify (c :: tail) =
      (longestMark? (c :: tail)).map fun s => (s.tokenClass, s.spelling.toList) := by
  cases hFound : classify (c :: tail) with
  | none =>
    have hNone : longestMark? (c :: tail) = none := by
      refine List.argmax_eq_none.2 (List.filter_eq_nil_iff.2 fun s hMem hPrefix => ?_)
      have hRejected := classify_eq_none_iff.1 hFound _ (mem_marks_iff.1 hMem)
      rw [lexeme?_mark (List.isPrefixOf_iff_prefix.1 hPrefix)] at hRejected
      cases hRejected
    rw [hNone]
    rfl
  | some found =>
    obtain ⟨before, rule, after, hAll, hRule, hBefore⟩ := List.findSome?_eq_some_iff.1 hFound
    obtain ⟨lexeme, hLexeme, rfl⟩ := Option.map_eq_some_iff.1 hRule
    have hMem : rule ∈ Rule.all := by
      rw [hAll]
      simp
    obtain ⟨s, rfl, rfl, hPrefix⟩ := mark_of_rule hBlank hWord hMem hLexeme
    have hRejected : ∀ earlier ∈ before, earlier.lexeme? (c :: tail) = none :=
      fun earlier hEarlier => Option.map_eq_none_iff.1 (hBefore earlier hEarlier)
    rw [longestMark?_of_first hAll hRejected hPrefix]
    rfl

/-! ## The two readings -/

/-- The ordered rules give the reading by the first character. -/
theorem classify_eq (text : List Char) : classify text = munch text := by
  cases text with
  | nil => rfl
  | cons c tail =>
    cases hBlank : isBlank c with
    | true => rw [classify_run hBlank, munch, if_pos hBlank]
    | false =>
      have hNoBlank : ¬ isBlank c = true := Bool.eq_false_iff.1 hBlank
      cases hDigit : c.isDigit with
      | true => rw [classify_digit hDigit, munch, if_neg hNoBlank, if_pos hDigit]
      | false =>
        have hNoDigit : ¬ c.isDigit = true := Bool.eq_false_iff.1 hDigit
        cases hWord : isWordChar c with
        | true =>
          have hFirst : ∀ d ∈ ((c :: tail).takeWhile isWordChar).head?, d.isDigit = false := by
            rw [List.takeWhile_cons_of_pos hWord]
            rintro d ⟨⟩
            exact hDigit
          have hRead := classify_word (wordFront_takeWhile hWord tail) hFirst
          rw [List.takeWhile_append_dropWhile] at hRead
          rw [hRead, munch, if_neg hNoBlank, if_neg hNoDigit, if_pos hWord]
        | false =>
          rw [classify_mark hBlank hWord, munch, if_neg hNoBlank, if_neg hNoDigit,
            if_neg (Bool.eq_false_iff.1 hWord)]

/-! ## Tokens that stand for a symbol -/

/-- The classes of the symbols. -/
def TokenClass.ofSymbols : List TokenClass :=
  [keyword, operator, openBracket, closeBracket, semicolon, assignment]

theorem Symbol.tokenClass_mem_ofSymbols (s : Symbol) : s.tokenClass ∈ TokenClass.ofSymbols := by
  cases s <;> decide

/-- A lexeme of a class of symbols is the spelling of a symbol of the class. -/
theorem exists_symbol_of_classify {text lexeme : List Char} {k : TokenClass}
    (h : classify text = some (k, lexeme)) (hClass : k ∈ TokenClass.ofSymbols) :
    ∃ s : Symbol, k = s.tokenClass ∧ lexeme = s.spelling.toList := by
  obtain ⟨rule, -, hLexeme, rfl⟩ := exists_rule_of_classify h
  cases rule with
  | keyword s => exact ⟨s, rfl, (Rule.spelled?_eq_some_iff.1 hLexeme).1⟩
  | mark s => exact ⟨s, rfl, (Rule.spelled?_eq_some_iff.1 hLexeme).1⟩
  | blanks | truth _ | fraction | digits | word =>
    exact absurd hClass (by simp [Rule.tokenClass, TokenClass.ofSymbols])

theorem isSome_symbol?_iff {r : Reading} {source : String} {t : Token}
    (hMem : t ∈ r.tokens source) :
    t.symbol?.isSome = true ↔ t.tokenClass ∈ TokenClass.ofSymbols := by
  constructor
  · intro hSome
    obtain ⟨s, hSymbol⟩ := Option.isSome_iff_exists.1 hSome
    rw [(Token.symbol?_eq_some_iff.1 hSymbol).2]
    exact s.tokenClass_mem_ofSymbols
  · intro hClass
    rcases classify_of_mem_tokensOf hMem with hEnd | ⟨text, hFound⟩
    · rw [hEnd] at hClass
      exact absurd hClass (by decide)
    · obtain ⟨s, hSame, hLexeme⟩ := exists_symbol_of_classify hFound hClass
      have hSymbol : t.symbol? = some s :=
        Token.symbol?_eq_some_iff.2 ⟨String.toList_inj.1 hLexeme, hSame⟩
      rw [hSymbol]
      rfl

/-- The ordered rules read every text by its first character. So the tokens of a source that stand
for a symbol are those of the classes of the symbols. -/
theorem classify_eq_munch :
    (∀ text, classify text = munch text) ∧
      ∀ (r : Reading) (source : String), ∀ t ∈ r.tokens source,
        (t.symbol?.isSome = true ↔ t.tokenClass ∈ TokenClass.ofSymbols) :=
  ⟨classify_eq, fun _ _ _ hMem => isSome_symbol?_iff hMem⟩

/-- A word that is spelled like a keyword, but does not end like one, stands for no symbol. -/
theorem classify_eq_munch_if :
    ⟨.identifier, "if", .ofOffsets Reading.unnamed 0 2⟩ ∈ Reading.default.tokens "if;" ∧
      ((Token.mk .identifier "if" (.ofOffsets Reading.unnamed 0 2)).symbol?.isSome = true ↔
        TokenClass.identifier ∈ TokenClass.ofSymbols) :=
  have hMem : ⟨.identifier, "if", .ofOffsets Reading.unnamed 0 2⟩ ∈
      Reading.default.tokens "if;" := by decide +kernel
  ⟨hMem, classify_eq_munch.2 .default "if;" _ hMem⟩

/-- A truth value goes as far as its word, and a number without digits behind its point stops before
it. -/
example : munch "true,)".toList = some (.boolean, "true".toList) ∧
    munch "true,".toList = some (.identifier, "true".toList) ∧
    munch "1.x".toList = some (.number, "1".toList) ∧
    munch "<==".toList = some (.operator, "<=".toList) := by
  decide

end Frontend
