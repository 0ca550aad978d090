import Frontend.Text.Blank
import Frontend.Token.Basic
import Frontend.Truth

/-!
# The lexical rules

The rules stand in a fixed order, and the first one that accepts the front of a text decides the
class and the lexeme there. So the order is part of the language: keywords come before words, an
operator of two characters before the one it begins with, and numbers with a fraction before those
without. A keyword and a truth value are accepted only if the text after them is of a certain kind;
that text is not part of the lexeme.

* `Rule.lexeme?_ne_nil`, `Rule.lexeme?_isPrefix`: what a rule accepts is a nonempty front of the text.
* `classify_ne_nil`, `classify_isPrefix`: so is what the rules together accept.
-/

namespace Frontend

inductive Rule where
  /-- Blank characters, as many as there are. -/
  | blanks
  /-- A word with a fixed meaning, before the end, a blank or an opening parenthesis. -/
  | keyword (s : Symbol)
  /-- An operator or a punctuation mark, whatever follows. -/
  | mark (s : Symbol)
  /-- A truth value, before the end, a blank, a semicolon, or a comma and a closing parenthesis. -/
  | truth (b : Bool)
  | fraction
  /-- Digits, as many as there are. -/
  | digits
  /-- ASCII letters, digits and underscores, as many as there are. -/
  | word
  deriving DecidableEq

namespace Rule

def all : List Rule :=
  [blanks,
    keyword .ifWord, keyword .elseWord, keyword .forWord, keyword .varWord, keyword .returnWord,
    keyword .fnWord,
    mark .equals, mark .notEquals, mark .plusPlus, mark .plus, mark .minusMinus, mark .dash,
    mark .star, mark .slash, mark .lessEquals, mark .greaterEquals, mark .less, mark .greater,
    mark .bang,
    mark .assignment,
    mark .semicolon, mark .closeParen, mark .openParen, mark .openCurly, mark .closeCurly,
    truth true, truth false,
    fraction, digits,
    word]

def tokenClass : Rule → TokenClass
  | blanks => .whitespace
  | keyword s => s.tokenClass
  | mark s => s.tokenClass
  | truth _ => .boolean
  | fraction => .number
  | digits => .number
  | word => .identifier

/-- Whether the character may stand in a word. -/
def isWordChar (c : Char) : Bool :=
  c.isAlphanum || c = '_'

/-- Whether the text may stand right after a keyword. -/
def endsKeyword : List Char → Bool
  | [] => true
  | c :: _ => Text.isBlank c || c = '('

/-- Whether the text may stand right after an operator or a punctuation mark: any text may. -/
def endsMark (_ : List Char) : Bool :=
  true

/-- Whether the text may stand right after a truth value. -/
def endsTruth : List Char → Bool
  | [] => true
  | ',' :: rest => rest.head? = some ')'
  | c :: _ => Text.isBlank c || c = ';'

/-- The spelling, if the text begins with it and goes on in the required way. -/
def spelled? (spelling : List Char) (follows : List Char → Bool) (text : List Char) :
    Option (List Char) :=
  if spelling.isPrefixOf text && follows (text.drop spelling.length) then some spelling else none

/-- The characters of one kind that the text begins with, if there are any. -/
def run? (kind : Char → Bool) (text : List Char) : Option (List Char) :=
  match text.takeWhile kind with
  | [] => none
  | c :: front => some (c :: front)

/-- The number with a fraction that the text begins with. -/
def fraction? (text : List Char) : Option (List Char) :=
  match run? Char.isDigit text, text.dropWhile Char.isDigit with
  | some whole, '.' :: rest => (run? Char.isDigit rest).map fun part => whole ++ '.' :: part
  | _, _ => none

/-- The lexeme that the rule accepts at the front of the text. -/
def lexeme? (r : Rule) (text : List Char) : Option (List Char) :=
  match r with
  | blanks => run? Text.isBlank text
  | keyword s => spelled? s.spelling.toList endsKeyword text
  | mark s => spelled? s.spelling.toList endsMark text
  | truth b => spelled? (Truth.text b).toList endsTruth text
  | fraction => fraction? text
  | digits => run? Char.isDigit text
  | word => run? isWordChar text

theorem spelled?_eq_some_iff {spelling text lexeme : List Char} {follows : List Char → Bool} :
    spelled? spelling follows text = some lexeme ↔
      lexeme = spelling ∧ ∃ rest, text = spelling ++ rest ∧ follows rest = true := by
  unfold spelled?
  constructor
  · intro h
    split at h
    · rename_i hSpelled
      simp only [Bool.and_eq_true, List.isPrefixOf_iff_prefix] at hSpelled
      obtain ⟨⟨rest, rfl⟩, hFollows⟩ := hSpelled
      rw [List.drop_left] at hFollows
      exact ⟨(Option.some.inj h).symm, rest, rfl, hFollows⟩
    · simp at h
  · rintro ⟨rfl, rest, rfl, hFollows⟩
    simp [hFollows]

theorem run?_eq_some_iff {kind : Char → Bool} {text lexeme : List Char} :
    run? kind text = some lexeme ↔ lexeme = text.takeWhile kind ∧ lexeme ≠ [] := by
  unfold run?
  split
  · rename_i hRun
    rw [hRun]
    simp
  · rename_i hRun
    rw [hRun]
    constructor
    · intro h
      cases h
      simp
    · rintro ⟨rfl, -⟩
      rfl

theorem fraction?_eq_some_iff {text lexeme : List Char} :
    fraction? text = some lexeme ↔ ∃ whole rest part, run? Char.isDigit text = some whole ∧
      text.dropWhile Char.isDigit = '.' :: rest ∧ run? Char.isDigit rest = some part ∧
      lexeme = whole ++ '.' :: part := by
  unfold fraction?
  split
  · rename_i whole rest hWhole hRest
    simp only [Option.map_eq_some_iff]
    constructor
    · rintro ⟨part, hPart, rfl⟩
      exact ⟨whole, rest, part, hWhole, hRest, hPart, rfl⟩
    · rintro ⟨whole', rest', part, hWhole', hRest', hPart, rfl⟩
      rw [hWhole] at hWhole'
      rw [hRest] at hRest'
      cases hWhole'
      cases hRest'
      exact ⟨part, hPart, rfl⟩
  · rename_i hNone
    simp only [reduceCtorEq, false_iff]
    rintro ⟨whole, rest, part, hWhole, hRest, -, -⟩
    exact hNone whole rest hWhole hRest

theorem lexeme?_ne_nil {r : Rule} {text lexeme : List Char} (h : r.lexeme? text = some lexeme) :
    lexeme ≠ [] := by
  cases r with
  | blanks => exact (run?_eq_some_iff.1 h).2
  | keyword s =>
    rw [(spelled?_eq_some_iff.1 h).1]
    cases s <;> decide
  | mark s =>
    rw [(spelled?_eq_some_iff.1 h).1]
    cases s <;> decide
  | truth b =>
    rw [(spelled?_eq_some_iff.1 h).1]
    cases b <;> decide
  | fraction =>
    obtain ⟨whole, rest, part, -, -, -, rfl⟩ := fraction?_eq_some_iff.1 h
    simp
  | digits => exact (run?_eq_some_iff.1 h).2
  | word => exact (run?_eq_some_iff.1 h).2

theorem run?_isPrefix {kind : Char → Bool} {text lexeme : List Char}
    (h : run? kind text = some lexeme) : lexeme <+: text := by
  rw [(run?_eq_some_iff.1 h).1]
  exact List.takeWhile_prefix kind

theorem lexeme?_isPrefix {r : Rule} {text lexeme : List Char} (h : r.lexeme? text = some lexeme) :
    lexeme <+: text := by
  cases r with
  | blanks => exact run?_isPrefix h
  | keyword s =>
    obtain ⟨rfl, rest, rfl, -⟩ := spelled?_eq_some_iff.1 h
    exact List.prefix_append _ _
  | mark s =>
    obtain ⟨rfl, rest, rfl, -⟩ := spelled?_eq_some_iff.1 h
    exact List.prefix_append _ _
  | truth b =>
    obtain ⟨rfl, rest, rfl, -⟩ := spelled?_eq_some_iff.1 h
    exact List.prefix_append _ _
  | fraction =>
    obtain ⟨whole, rest, part, hWhole, hRest, hPart, rfl⟩ := fraction?_eq_some_iff.1 h
    obtain ⟨hWhole, -⟩ := run?_eq_some_iff.1 hWhole
    obtain ⟨after, hAfter⟩ := run?_isPrefix hPart
    refine ⟨after, ?_⟩
    rw [List.append_assoc, List.cons_append, hAfter, ← hRest, hWhole, List.takeWhile_append_dropWhile]
  | digits => exact run?_isPrefix h
  | word => exact run?_isPrefix h

/-- The class and the lexeme that the rule gives at the front of the text. -/
def find? (text : List Char) (r : Rule) : Option (TokenClass × List Char) :=
  (r.lexeme? text).map fun lexeme => (r.tokenClass, lexeme)

end Rule

/-- The class and the lexeme at the front of a text, by the first rule that accepts there. -/
def classify (text : List Char) : Option (TokenClass × List Char) :=
  Rule.all.findSome? (Rule.find? text)

theorem exists_rule_of_classify {text lexeme : List Char} {k : TokenClass}
    (h : classify text = some (k, lexeme)) :
    ∃ r ∈ Rule.all, r.lexeme? text = some lexeme ∧ r.tokenClass = k := by
  obtain ⟨r, hMem, hFind⟩ := List.exists_of_findSome?_eq_some h
  obtain ⟨found, hFound, hPair⟩ := Option.map_eq_some_iff.1 hFind
  cases hPair
  exact ⟨r, hMem, hFound, rfl⟩

theorem classify_ne_nil {text lexeme : List Char} {k : TokenClass}
    (h : classify text = some (k, lexeme)) : lexeme ≠ [] := by
  obtain ⟨r, -, hLexeme, -⟩ := exists_rule_of_classify h
  exact Rule.lexeme?_ne_nil hLexeme

theorem classify_isPrefix {text lexeme : List Char} {k : TokenClass}
    (h : classify text = some (k, lexeme)) : lexeme <+: text := by
  obtain ⟨r, -, hLexeme, -⟩ := exists_rule_of_classify h
  exact Rule.lexeme?_isPrefix hLexeme

end Frontend
