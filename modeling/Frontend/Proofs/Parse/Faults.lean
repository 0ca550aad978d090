import Frontend.Proofs.Decimal
import Frontend.Proofs.Parse.Attribution

/-!
# Faults that do not occur

Some faults are only named for the case that the tables of the grammar disagree, or that a token does
not have the form of its class. The tables agree, so that no parse reports a token in the place of an
operator; and the lexical rules make a truth value of nothing else, so that no source has a truth
value that cannot be read. A number of a source that cannot be read has a fraction or is too large.

* `point_or_large`: the numbers of a source that are no 64-bit integers.
* `faults_excluded`: for the tables, for token lists and for sources.
-/

namespace Frontend

/-- A number that a source can spell, but that is no 64-bit integer. -/
theorem point_or_large {lexeme : String} {text : List Char}
    (hFound : classify text = some (.number, lexeme.toList))
    (hRead : Decimal.toInt64? lexeme = none) :
    '.' ∈ lexeme.toList ∨ 9223372036854775807 < Decimal.value lexeme.toList := by
  obtain ⟨whole, tail, hLexeme, hText, hDigits, rfl | hPoint⟩ := exists_digits_of_classify hFound
  · right
    rw [List.append_nil] at hLexeme
    rw [← hLexeme] at hText hDigits
    by_contra hSmall
    obtain ⟨v, hSome, -⟩ := Decimal.exists_toInt64? hText hDigits (Nat.le_of_not_lt hSmall)
    rw [hRead] at hSome
    cases hSome
  · left
    rw [hLexeme]
    exact List.mem_append_right _ hPoint

/-- What is read as a truth value can be read as one. -/
theorem ofText?_ne_none {lexeme : String} {text : List Char}
    (hFound : classify text = some (.boolean, lexeme.toList)) : Truth.ofText? lexeme ≠ none := by
  obtain ⟨b, hLexeme⟩ := exists_truth_of_classify hFound
  rw [String.toList_inj.1 hLexeme, Truth.ofText?_eq_some_iff.2 rfl]
  nofun

/-- A token of a class other than the mark of the end stands at the front of a stretch of the
source. -/
theorem exists_classify_of_mem_tokens {r : Reading} {source : String} {t : Token}
    {k : TokenClass} (hMem : t ∈ r.tokens source) (hClass : t.tokenClass = k)
    (hEnd : k ≠ .endOfInput) : ∃ text, classify text = some (k, t.lexeme.toList) := by
  have hNot : t.isEnd = false := by simpa [Token.isEnd, hClass] using hEnd
  rw [← hClass]
  exact exists_classify_of_mem_tokensOf hMem hNot

/-- The tables agree about every token: what has a power has a rule as an operator and is one, and
what has the rule for operators in front of an operand is one. No parse reports a token in the place
of an operator or a tree without a value. In a source, every truth value can be read, and a number
that cannot be read as a 64-bit integer has a point or stands for a number beyond these integers. -/
theorem faults_excluded :
    (∀ t : Token,
      (∀ floor, floor < Grammar.standard.power t →
        Grammar.standard.operators.get? t.key = some .binary ∧
          ∃ op, t.symbol?.bind BinaryOp.ofSymbol? = some op) ∧
      (Grammar.standard.operands.get? t.key = some .unary →
        ∃ op, t.symbol?.bind UnaryOp.ofSymbol? = some op)) ∧
    (∀ tokens, ∀ d ∈ (Program.parse tokens).errors,
      (∀ text, d.fault ≠ .unexpectedToken text) ∧ ∀ node, d.fault ≠ .notEvaluable node) ∧
    ∀ (r : Reading) (source : String), ∀ d ∈ (Program.ofSource r source).errors,
      (∀ text, d.fault ≠ .notTruth text) ∧
      ∀ text, d.fault = .notInteger text → ∃ t ∈ r.tokens source,
        t.tokenClass = .number ∧ t.lexeme = text ∧ d.position = t.span.first ∧
          ('.' ∈ text.toList ∨ 9223372036854775807 < Decimal.value text.toList) := by
  refine ⟨fun t => ⟨fun _ => operator_found, unaryOp_found⟩, ?_, ?_⟩
  · intro tokens d hError
    obtain ⟨t, -, f, hGround, rfl⟩ := Parse.exists_ground_of_error hError
    constructor <;> (rintro text rfl; cases hGround)
  · intro r source d hError
    obtain ⟨t, hMem, f, hGround, rfl⟩ := exists_ground_of_ofSource hError
    constructor
    · rintro text rfl
      cases hGround with
      | notTruth hClass hRead =>
        obtain ⟨front, hFound⟩ := exists_classify_of_mem_tokens hMem hClass (by decide)
        exact ofText?_ne_none hFound hRead
    · rintro text rfl
      cases hGround with
      | notInteger hClass hRead =>
        obtain ⟨front, hFound⟩ := exists_classify_of_mem_tokens hMem hClass (by decide)
        exact ⟨t, hMem, hClass, rfl, rfl, point_or_large hFound hRead⟩

/-- A number with a fraction and one that is too large, with a sign and in an unclosed group. -/
def unreadable : String := "(1.5 * -9223372036854775808"

/-- The report about the second number. -/
def unreadableReport : Diagnostic :=
  ⟨.notInteger "9223372036854775808", ⟨"shell", 8⟩⟩

/-- The sign is an operator in front of an operand as well as one between two. -/
theorem faults_excluded_unreadable :
    BindingPower.lowest < Grammar.standard.power ⟨.operator, "-", .null⟩ ∧
      Grammar.standard.operators.get? (Token.mk .operator "-" .null).key = some .binary ∧
      (∃ op, (Token.mk .operator "-" .null).symbol?.bind BinaryOp.ofSymbol? = some op) ∧
      Grammar.standard.operands.get? (Token.mk .operator "-" .null).key = some .unary ∧
      (∃ op, (Token.mk .operator "-" .null).symbol?.bind UnaryOp.ofSymbol? = some op) ∧
      unreadableReport ∈ (Program.ofSource .default unreadable).errors ∧
      (∀ text, unreadableReport.fault ≠ .unexpectedToken text) ∧
      (∀ text, unreadableReport.fault ≠ .notTruth text) ∧
      ∃ t ∈ Reading.default.tokens unreadable,
        t.tokenClass = .number ∧ t.lexeme = "9223372036854775808" ∧
          unreadableReport.position = t.span.first ∧
          ('.' ∈ "9223372036854775808".toList ∨
            9223372036854775807 < Decimal.value "9223372036854775808".toList) :=
  have hPower : BindingPower.lowest < Grammar.standard.power ⟨.operator, "-", .null⟩ := by decide
  have hRule : Grammar.standard.operands.get? (Token.mk .operator "-" .null).key = some .unary := by
    decide
  have hError : unreadableReport ∈ (Program.ofSource .default unreadable).errors := by
    decide +kernel
  have hLookup := faults_excluded.1 ⟨.operator, "-", .null⟩
  ⟨hPower, (hLookup.1 _ hPower).1, (hLookup.1 _ hPower).2, hRule, hLookup.2 hRule, hError,
    (faults_excluded.2.1 _ _ hError).1, (faults_excluded.2.2 .default unreadable _ hError).1,
    (faults_excluded.2.2 .default unreadable _ hError).2 _ rfl⟩

end Frontend
