import Frontend.Proofs.Decimal
import Frontend.Proofs.Parse.Completeness
import Frontend.Proofs.Token.Front
import Frontend.Value

/-!
# Numbers from text to value

Digits alone are one token, whatever they stand for, and this token is a statement if they stand for
a 64-bit integer. The sign in front of them is a token of its own and an operator, so that the limit
of the digits is the same behind it. That is why every integer but the smallest is read back from
its text: the digits of the smallest one go beyond the limit.

* `statements_of_operand`: an operand that takes the whole source is its only statement.
* `ofSource_digits`, `ofSource_negated`: digits alone, and digits behind a sign.
* `ofSource_text_nonneg`, `ofSource_text_neg`, `ofSource_text_minValue`: the texts of integers.
* `integers_readBack`: for digits of any length and for all integers.
-/

namespace Frontend

open Text (byteLength)

/-! ## Parsing -/

namespace Parse

section

variable {p : Setting} {floor : BindingPower} {rule : OperandRule} {t last : Token}
  {rest : List Token}

theorem next_drop_before_last : p.next ((t :: (rest ++ [last])).drop rest.length) = last := by
  have hTokens : 0 < (t :: rest).length := Nat.succ_pos _
  exact next_drop_last p [last] hTokens

theorem moved_operand_integer : (operand p (t :: rest) .integer).moved = 0 := by
  rw [operand_integer, (builtOrFault_integer t).moved]

variable (hp : p.IsStandard) (hLast : last.isEnd = true)
include hp hLast

/-- An operand that takes everything up to the mark of the end is the whole expression. -/
theorem expression_of_operand (h : Opening t rule)
    (hMoved : (operand p (t :: (rest ++ [last])) rule).moved = rest.length) :
    expression p (t :: (rest ++ [last])) floor = operand p (t :: (rest ++ [last])) rule := by
  have hStop : ¬ floor < p.grammar.power (p.next ((t :: (rest ++ [last])).drop rest.length)) := by
    rw [next_drop_before_last, hp.grammar,
      power_of_not_operator fun op => Token.not_is_of_isEnd hLast op.symbol]
    exact BindingPower.not_lt_lowest floor
  rw [expression_of_opening hp h, hMoved, operators_stop hStop, Step.after, Step.stay,
    List.append_nil, Nat.add_zero, ← hMoved]

/-- And it is the only statement. -/
theorem statements_of_operand (h : Opening t rule)
    (hMoved : (operand p (t :: (rest ++ [last])) rule).moved = rest.length) :
    statements p (t :: (rest ++ [last])) false =
      ⟨((operand p (t :: (rest ++ [last])) rule).value.map .expr).toList, rest.length + 1,
        (operand p (t :: (rest ++ [last])) rule).errors⟩ := by
  have hMore : ¬ Ends false (t :: (rest ++ [last])) := by
    intro hEnds
    rcases hEnds t rfl with hMark | ⟨hBlock, -⟩
    · exact h.not_isEnd hMark
    · cases hBlock
  have hOver : Ends false [last] := by
    rintro _ ⟨⟩
    exact Or.inl hLast
  have hStatement : statement p (t :: (rest ++ [last])) =
      expressionStmt p (t :: (rest ++ [last])) :=
    statement_expr hp (h.not_is (by decide)) (h.not_is (by decide))
  rw [statements_cons hMore, hStatement, expressionStmt_eq, expression_of_operand hp hLast h hMoved,
    hMoved, next_drop_before_last, if_neg (Token.not_is_of_isEnd hLast _)]
  dsimp only
  rw [Nat.add_zero, List.drop_left, statements_of_ends hOver]
  simp [Step.stay]

theorem statements_number (hClass : t.tokenClass = .number) :
    statements p [t, last] false =
      ⟨((integer t).value.map .expr).toList, 1, (integer t).errors⟩ := by
  have hRead : statements p (t :: ([] ++ [last])) false = _ :=
    statements_of_operand hp hLast (.integer hClass) moved_operand_integer
  rwa [operand_integer] at hRead

theorem statements_negated {dash : Token} (hDash : dash.is .dash = true)
    (hClass : t.tokenClass = .number) :
    statements p [dash, t, last] false =
      ⟨((integer t).value.map fun e => .expr (.unary .negate e)).toList, 2,
        (integer t).errors⟩ := by
  have hNumber : expression p (t :: ([] ++ [last])) .unary = operand p [t, last] .integer :=
    expression_of_operand hp hLast (.integer hClass) moved_operand_integer
  have hOperand : operand p [dash, t, last] .unary =
      ((integer t).build (.unary .negate)).after 1 [] := by
    have hUnary : operand p [dash, t, last] .unary =
        ((expression p [t, last] .unary).build (.unary .negate)).after 1 [] := operand_unary hDash
    rw [List.nil_append, operand_integer] at hNumber
    rw [hUnary, hNumber]
  have hMoved : (operand p (dash :: ([t] ++ [last])) .unary).moved = 1 := by
    rw [List.singleton_append, hOperand, Step.moved_after, Step.moved_build,
      (builtOrFault_integer t).moved]
  have hRead := statements_of_operand hp hLast (.unary .negate hDash) hMoved
  rwa [List.singleton_append, hOperand, Step.value_after, Step.value_build, Step.errors_after,
    Step.errors_build, List.nil_append, Option.map_map] at hRead

end

variable {t dash last : Token} (hLast : last.isEnd = true) (hClass : t.tokenClass = .number)
include hLast hClass

theorem parse_number :
    Program.parse [t, last] =
      match Decimal.toInt64? t.lexeme with
      | some v => ⟨[.expr (.int v)], []⟩
      | none => ⟨[], [faultAt t (.notInteger t.lexeme)]⟩ := by
  show Program.mk (statements (.ofTokens [t, last]) [t, last] false).value
    (statements (.ofTokens [t, last]) [t, last] false).errors = _
  rw [statements_number (isStandard_ofTokens _) hLast hClass, integer]
  cases Decimal.toInt64? t.lexeme <;> rfl

theorem parse_negated (hDash : dash.is .dash = true) :
    Program.parse [dash, t, last] =
      match Decimal.toInt64? t.lexeme with
      | some v => ⟨[.expr (.unary .negate (.int v))], []⟩
      | none => ⟨[], [faultAt t (.notInteger t.lexeme)]⟩ := by
  show Program.mk (statements (.ofTokens [dash, t, last]) [dash, t, last] false).value
    (statements (.ofTokens [dash, t, last]) [dash, t, last] false).errors = _
  rw [statements_negated (isStandard_ofTokens _) hLast hDash hClass, integer]
  cases Decimal.toInt64? t.lexeme <;> rfl

end Parse

/-! ## Reading -/

section

variable (r : Reading) {text : String} (hText : text.toList ≠ [])
  (hDigits : ∀ c ∈ text.toList, c.isDigit = true)

/-- The token of digits at a byte offset. -/
def numberAt (r : Reading) (offset : Nat) (text : String) : Token :=
  ⟨.number, text, .ofOffsets r.file offset (offset + byteLength text.toList)⟩

include hText hDigits

theorem tokensOf_digits (offset : Nat) :
    r.tokensOf offset (Piece.scan text.toList) =
      [numberAt r offset text, .endOfInput r.file (offset + byteLength text.toList)] := by
  have hFound : classify (text.toList ++ []) = some (.number, text.toList) :=
    classify_number hText hDigits nofun
  rw [List.append_nil] at hFound
  have hKept : ∀ stop, r.token? .number text.toList offset stop =
      some ⟨.number, text, .ofOffsets r.file offset stop⟩ := by
    intro stop
    rw [Reading.token?, if_neg nofun, String.ofList_toList]
  rw [Piece.scan_of_classify hFound, List.drop_length, Piece.scan_nil, Reading.tokensOf, hKept]
  rfl

/-- Digits alone are a statement if they can be read. -/
theorem ofSource_digits :
    Program.ofSource r text =
      match Decimal.toInt64? text with
      | some v => ⟨[.expr (.int v)], []⟩
      | none => ⟨[], [⟨.notInteger text, ⟨r.file, 0⟩⟩]⟩ := by
  rw [Program.ofSource, Reading.tokens, tokensOf_digits r hText hDigits, Parse.parse_number rfl rfl]
  rfl

/-- So are digits behind a sign, which is no part of the number. -/
theorem ofSource_negated :
    Program.ofSource r ("-" ++ text) =
      match Decimal.toInt64? text with
      | some v => ⟨[.expr (.unary .negate (.int v))], []⟩
      | none => ⟨[], [⟨.notInteger text, ⟨r.file, 1⟩⟩]⟩ := by
  have hHead : ∀ c ∈ text.toList.head?, c ∉ ['=', '+', '-'] := by
    intro c hHead hMark
    have hDigit := hDigits c (List.mem_of_mem_head? hHead)
    simp only [List.mem_cons, List.not_mem_nil, or_false] at hMark
    rcases hMark with rfl | rfl | rfl <;> exact absurd hDigit (by decide)
  have hFound : classify ("-" ++ text).toList = some (.operator, ['-']) := by
    rw [String.toList_append]
    exact classify_operator (s := .dash) (Or.inl rfl) hHead
  have hTokens : r.tokens ("-" ++ text) =
      [⟨.operator, "-", .ofOffsets r.file 0 1⟩, numberAt r 1 text,
        .endOfInput r.file (1 + byteLength text.toList)] := by
    have hKept : ∀ stop, r.token? .operator ['-'] 0 stop =
        some ⟨.operator, "-", .ofOffsets r.file 0 stop⟩ := fun stop => if_neg nofun
    rw [Reading.tokens, Piece.scan_of_classify hFound, String.toList_append,
      show (['-'] : List Char) = "-".toList from rfl, List.drop_left, Reading.tokensOf,
      tokensOf_digits r hText hDigits]
    exact congrArg (fun found : Option Token => found.toList ++ _) (hKept 1)
  have hDash : (Token.mk .operator "-" (.ofOffsets r.file 0 1)).is .dash = true :=
    Token.is_iff.2 (Token.symbol?_eq_some_iff.2 ⟨rfl, rfl⟩)
  rw [Program.ofSource, hTokens, Parse.parse_negated rfl rfl hDash]
  rfl

end

/-! ## Printed integers -/

variable (r : Reading) {v : Int64}

/-- An integer that is not negative is read back as it is. -/
theorem ofSource_text_nonneg (h : 0 ≤ v) :
    Program.ofSource r (Value.int v).text = ⟨[.expr (.int v)], []⟩ := by
  obtain ⟨hText, hDigits, -⟩ := Decimal.spells_ofNat v.toInt.natAbs
  have hSign : ¬ v.toInt < 0 := Int.not_lt.2 (Int64.le_iff_toInt_le.1 h)
  have hValue : (Value.int v).text = Decimal.ofNat v.toInt.natAbs := if_neg hSign
  have hRead : Decimal.toInt64? (Decimal.ofNat v.toInt.natAbs) = some v := by
    rw [← hValue]
    exact Decimal.toInt64?_ofInt h
  rw [hValue, ofSource_digits r hText hDigits, hRead]

/-- A negative one is read back as its negation behind a sign, if this is an integer. -/
theorem ofSource_text_neg (h : v < 0) (hMin : v ≠ Int64.minValue) :
    Program.ofSource r (Value.int v).text = ⟨[.expr (.unary .negate (.int (-v)))], []⟩ := by
  obtain ⟨hText, hDigits, hValue⟩ := Decimal.spells_ofNat v.toInt.natAbs
  have hSign : v.toInt < 0 := Int64.lt_iff_toInt_lt.1 h
  have hPrinted : (Value.int v).text = "-" ++ Decimal.ofNat v.toInt.natAbs := if_pos hSign
  have hLower : -9223372036854775808 < v.toInt := by
    apply Int.lt_iff_le_and_ne.2 ⟨v.minValue_le_toInt, ?_⟩
    intro hSame
    exact hMin (Int64.toInt_inj.1 hSame.symm)
  have hRange : Decimal.value (Decimal.ofNat v.toInt.natAbs).toList ≤ 9223372036854775807 := by
    omega
  obtain ⟨w, hRead, hInt⟩ := Decimal.exists_toInt64? hText hDigits hRange
  have hNegated : w = -v := by
    have hNat : (v.toInt.natAbs : Int) = -v.toInt := Int.ofNat_natAbs_of_nonpos (Int.le_of_lt hSign)
    apply Int64.toInt_inj.1
    rw [hInt, hValue, Int64.toInt_neg, hNat]
    exact (Int.bmod_eq_of_le (by omega) (by omega)).symm
  rw [hPrinted, ofSource_negated r hText hDigits, hRead, hNegated]

theorem ofSource_text_minValue :
    Program.ofSource r (Value.int Int64.minValue).text =
      ⟨[], [⟨.notInteger "9223372036854775808", ⟨r.file, 1⟩⟩]⟩ := by
  have hText : "9223372036854775808".toList ≠ [] := by decide
  have hDigits : ∀ c ∈ "9223372036854775808".toList, c.isDigit = true :=
    List.all_eq_true.1 (by decide)
  have hPrinted : (Value.int Int64.minValue).text = "-" ++ "9223372036854775808" := by
    decide +kernel
  rw [hPrinted, ofSource_negated r hText hDigits,
    Decimal.toInt64?_eq_none hText hDigits (by decide)]

/-- Digits are read as the number that they stand for if it is a 64-bit integer, and refused where
they begin if it is not. Every integer but the smallest is the value of its text, and the text of
the smallest is refused behind its sign. -/
theorem integers_readBack (r : Reading) :
    (∀ text : String, text ≠ "" → (∀ c ∈ text.toList, c.isDigit = true) →
      (Decimal.value text.toList ≤ 9223372036854775807 →
        ∃ v : Int64, v.toInt = Decimal.value text.toList ∧
          Program.ofSource r text = ⟨[.expr (.int v)], []⟩) ∧
      (9223372036854775807 < Decimal.value text.toList →
        Program.ofSource r text = ⟨[], [⟨.notInteger text, ⟨r.file, 0⟩⟩]⟩)) ∧
    (∀ v : Int64, v ≠ Int64.minValue →
      (Program.ofSource r (Value.int v).text).errors = [] ∧
        (Program.ofSource r (Value.int v).text).eval = .ok (.int v)) ∧
    Program.ofSource r (Value.int Int64.minValue).text =
      ⟨[], [⟨.notInteger "9223372036854775808", ⟨r.file, 1⟩⟩]⟩ := by
  refine ⟨?_, ?_, ofSource_text_minValue r⟩
  · intro text hNonempty hDigits
    have hText : text.toList ≠ [] := by simpa using hNonempty
    constructor
    · intro hRange
      obtain ⟨v, hRead, hInt⟩ := Decimal.exists_toInt64? hText hDigits hRange
      refine ⟨v, hInt, ?_⟩
      rw [ofSource_digits r hText hDigits, hRead]
    · intro hRange
      rw [ofSource_digits r hText hDigits, Decimal.toInt64?_eq_none hText hDigits hRange]
  · intro v hMin
    by_cases hSign : 0 ≤ v
    · rw [ofSource_text_nonneg r hSign]
      exact ⟨rfl, rfl⟩
    · rw [ofSource_text_neg r (Int64.not_le.1 hSign) hMin]
      refine ⟨rfl, ?_⟩
      show Except.ok (Value.int (- -v)) = _
      rw [Int64.neg_neg]

/-- Leading zeros count neither for the number nor for the limit. -/
theorem integers_readBack_zeros :
    (∃ v : Int64, v.toInt = 42 ∧
      Program.ofSource .default "00000000000000000000000042" = ⟨[.expr (.int v)], []⟩) ∧
    Program.ofSource .default "0009223372036854775808" =
      ⟨[], [⟨.notInteger "0009223372036854775808", ⟨"shell", 0⟩⟩]⟩ ∧
    (Program.ofSource .default (Value.int (-9223372036854775807)).text).errors = [] ∧
      (Program.ofSource .default (Value.int (-9223372036854775807)).text).eval =
        .ok (.int (-9223372036854775807)) := by
  obtain ⟨hDigits, hText, -⟩ := integers_readBack .default
  refine ⟨?_, ?_, hText _ (by decide)⟩
  · have hSmall : ∀ c ∈ "00000000000000000000000042".toList, c.isDigit = true :=
      List.all_eq_true.1 (by decide)
    have hValue : Decimal.value "00000000000000000000000042".toList = 42 := by decide
    have hRead := (hDigits _ (by decide) hSmall).1
    rw [hValue] at hRead
    exact hRead (by decide)
  · have hLarge : ∀ c ∈ "0009223372036854775808".toList, c.isDigit = true :=
      List.all_eq_true.1 (by decide)
    exact (hDigits _ (by decide) hLarge).2 (by decide)

end Frontend
