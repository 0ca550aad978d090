import Frontend.Parse.Program

/-!
# The grammar of the language, key by key

`Grammar.standard` is built by registering one rule after the other. This module reads the result
off, so that nothing else has to look into the tables.

* `opening_iff`: which tokens begin an operand, and by which rule.
* `power_of_is`, `exists_operator_of_lt`: a token binds exactly as tightly as the operator it stands
  for, and only operators bind at all.
* `statementRule_eq`: only the keywords `var` and `return` begin a statement of their own kind.
-/

namespace Frontend

/-! ## Keys -/

theorem Token.is_iff {t : Token} {s : Symbol} : t.is s = true ↔ t.symbol? = some s := by
  simp [Token.is]

theorem Token.is_iff_key {t : Token} {s : Symbol} : t.is s = true ↔ t.key = .symbol s := by
  rw [Token.is_iff, Token.key_eq_symbol_iff]

theorem Token.is_unique {t : Token} {s s' : Symbol} (h : t.is s = true) (h' : t.is s' = true) :
    s = s' := by
  rw [Token.is_iff] at h h'
  exact Option.some.inj (h.symm.trans h')

theorem Token.tokenClass_of_is {t : Token} {s : Symbol} (h : t.is s = true) :
    t.tokenClass = s.tokenClass :=
  (Token.symbol?_eq_some_iff.1 (Token.is_iff.1 h)).2

theorem Token.not_is_of_tokenClass {t : Token} {k : TokenClass} (h : t.tokenClass = k)
    (hNone : ∀ s : Symbol, s.tokenClass ≠ k) (s : Symbol) : ¬ t.is s = true := by
  intro hIs
  exact hNone s ((Token.tokenClass_of_is hIs).symm.trans h)

theorem Token.symbol?_eq_none {t : Token} (h : ∀ s : Symbol, s.tokenClass ≠ t.tokenClass) :
    t.symbol? = none := by
  cases hSymbol : t.symbol? with
  | none => rfl
  | some s => exact absurd (Token.symbol?_eq_some_iff.1 hSymbol).2.symm (h s)

theorem Token.key_of_tokenClass {t : Token} {k : TokenClass} (h : t.tokenClass = k)
    (hNone : ∀ s : Symbol, s.tokenClass ≠ k) : t.key = .tokenClass k := by
  subst h
  unfold Token.key
  rw [Token.symbol?_eq_none hNone]

theorem Token.tokenClass_of_key {t : Token} {k : TokenClass} (h : t.key = .tokenClass k) :
    t.tokenClass = k := by
  unfold Token.key at h
  split at h
  · cases h
  · exact Key.tokenClass.inj h

/-- No symbol is written as a number, a truth value, a name or the end of the input. -/
theorem Symbol.tokenClass_ne (s : Symbol) :
    s.tokenClass ≠ .number ∧ s.tokenClass ≠ .boolean ∧ s.tokenClass ≠ .identifier ∧
      s.tokenClass ≠ .endOfInput := by
  cases s <;> decide

theorem Token.not_is_of_isEnd {t : Token} (h : t.isEnd = true) (s : Symbol) :
    ¬ t.is s = true := by
  intro hIs
  have hClass : t.tokenClass = .endOfInput := by simpa [Token.isEnd] using h
  exact s.tokenClass_ne.2.2.2 ((Token.tokenClass_of_is hIs).symm.trans hClass)

theorem Token.not_isEnd_of_is {t : Token} {s : Symbol} (h : t.is s = true) : ¬ t.isEnd = true :=
  fun hEnd => Token.not_is_of_isEnd hEnd s h

theorem Token.describe_of_not_isEnd {t : Token} (h : ¬ t.isEnd = true) : t.describe = t.lexeme :=
  if_neg h

theorem Token.key_of_isEnd {t : Token} (h : t.isEnd = true) :
    t.key = .tokenClass .endOfInput :=
  Token.key_of_tokenClass (by simpa [Token.isEnd] using h) fun s => s.tokenClass_ne.2.2.2

/-! ## Operands -/

/-- How a token begins an operand. -/
inductive Opening (t : Token) : OperandRule → Prop where
  | integer (h : t.tokenClass = .number) : Opening t .integer
  | truth (h : t.tokenClass = .boolean) : Opening t .truth
  | name (h : t.tokenClass = .identifier) : Opening t .name
  | unary (op : UnaryOp) (h : t.is op.symbol = true) : Opening t .unary
  | group (h : t.is .openParen = true) : Opening t .group
  | cond (h : t.is .ifWord = true) : Opening t .cond

/-- The entries of the operand table. -/
theorem operands_standard (key : Key) :
    Grammar.standard.operands.get? key =
      match key with
      | .tokenClass .number => some .integer
      | .tokenClass .boolean => some .truth
      | .tokenClass .identifier => some .name
      | .symbol .bang => some .unary
      | .symbol .dash => some .unary
      | .symbol .openParen => some .group
      | .symbol .ifWord => some .cond
      | _ => none := by
  cases key with
  | tokenClass k => cases k <;> rfl
  | symbol s => cases s <;> rfl

theorem opening_iff {t : Token} {rule : OperandRule} :
    Grammar.standard.operands.get? t.key = some rule ↔ Opening t rule := by
  rw [operands_standard]
  constructor
  · intro h
    split at h <;> cases h <;> rename_i hKey
    · exact .integer (Token.tokenClass_of_key hKey)
    · exact .truth (Token.tokenClass_of_key hKey)
    · exact .name (Token.tokenClass_of_key hKey)
    · exact .unary .not (Token.is_iff_key.2 hKey)
    · exact .unary .negate (Token.is_iff_key.2 hKey)
    · exact .group (Token.is_iff_key.2 hKey)
    · exact .cond (Token.is_iff_key.2 hKey)
  · intro h
    cases h with
    | integer h => rw [Token.key_of_tokenClass h fun s => s.tokenClass_ne.1]
    | truth h => rw [Token.key_of_tokenClass h fun s => s.tokenClass_ne.2.1]
    | name h => rw [Token.key_of_tokenClass h fun s => s.tokenClass_ne.2.2.1]
    | unary op h =>
      rw [Token.is_iff_key.1 h]
      cases op <;> rfl
    | group h => rw [Token.is_iff_key.1 h]
    | cond h => rw [Token.is_iff_key.1 h]

theorem Opening.not_isEnd {t : Token} {rule : OperandRule} (h : Opening t rule) :
    ¬ t.isEnd = true := by
  have hRule := opening_iff.2 h
  intro hEnd
  rw [Token.key_of_isEnd hEnd] at hRule
  cases hRule

theorem Opening.not_is {t : Token} {rule : OperandRule} (h : Opening t rule) {s : Symbol}
    (hs : s ∉ [Symbol.bang, .dash, .openParen, .ifWord]) : ¬ t.is s = true := by
  intro hIs
  cases h with
  | integer h => exact s.tokenClass_ne.1 ((Token.tokenClass_of_is hIs).symm.trans h)
  | truth h => exact s.tokenClass_ne.2.1 ((Token.tokenClass_of_is hIs).symm.trans h)
  | name h => exact s.tokenClass_ne.2.2.1 ((Token.tokenClass_of_is hIs).symm.trans h)
  | unary op h =>
    rw [Token.is_unique hIs h] at hs
    cases op <;> exact hs (by decide)
  | group h =>
    rw [Token.is_unique hIs h] at hs
    exact hs (by decide)
  | cond h =>
    rw [Token.is_unique hIs h] at hs
    exact hs (by decide)

/-! ## Tokens of the same key -/

section

variable {t t' : Token}

theorem is_of_key (h : t.key = t'.key) (s : Symbol) : t.is s = t'.is s := by
  rw [Bool.eq_iff_iff, Token.is_iff_key, Token.is_iff_key, h]

/-- A class without symbols is seen in the key. -/
theorem tokenClass_of_key {k : TokenClass} (h : t.key = t'.key) (hClass : t.tokenClass = k)
    (hNone : ∀ s : Symbol, s.tokenClass ≠ k) : t'.tokenClass = k := by
  apply Token.tokenClass_of_key
  rw [← h]
  exact Token.key_of_tokenClass hClass hNone

theorem isEnd_of_key (h : t.key = t'.key) : t.isEnd = t'.isEnd := by
  have hOne : ∀ {a b : Token}, a.key = b.key → a.isEnd = true → b.isEnd = true := by
    intro a b hKey hEnd
    have hClass : b.tokenClass = .endOfInput :=
      tokenClass_of_key hKey (by simpa [Token.isEnd] using hEnd) fun s => s.tokenClass_ne.2.2.2
    simpa [Token.isEnd] using hClass
  rw [Bool.eq_iff_iff]
  exact ⟨hOne h, hOne h.symm⟩

theorem opening_of_key (h : t.key = t'.key) {rule : OperandRule} (hOpening : Opening t rule) :
    Opening t' rule := by
  rw [← opening_iff] at hOpening ⊢
  rwa [← h]

theorem Opening.unique {rule rule' : OperandRule} (h : Opening t rule) (h' : Opening t rule') :
    rule = rule' := by
  rw [← opening_iff] at h h'
  exact Option.some.inj (h.symm.trans h')

end

/-! ## Operators -/

/-- How tightly an operator binds. -/
def BinaryOp.power : BinaryOp → BindingPower
  | equals => .equals
  | notEquals => .equals
  | less => .comparison
  | lessEquals => .comparison
  | greater => .comparison
  | greaterEquals => .comparison
  | plus => .sum
  | minus => .sum
  | multiply => .product
  | divide => .product

theorem BindingPower.not_lt_lowest (floor : BindingPower) : ¬ floor < .lowest :=
  Nat.not_lt_zero _

theorem BindingPower.lt_of_lt_of_not_lt {a b c : BindingPower} (hab : a < b) (hcb : ¬ c < b) :
    a < c :=
  Nat.lt_of_lt_of_le hab (Nat.le_of_not_lt hcb)

theorem BindingPower.lt_trans {a b c : BindingPower} (hab : a < b) (hbc : b < c) : a < c :=
  Nat.lt_trans hab hbc

theorem BindingPower.not_lt_of_lt {a b : BindingPower} (h : a < b) : ¬ b < a :=
  Nat.lt_asymm h

theorem BinaryOp.lowest_lt_power (op : BinaryOp) : BindingPower.lowest < op.power := by
  cases op <;> decide

/-- No operator between operands binds as tightly as one in front of its operand. -/
theorem BinaryOp.power_lt_unary (op : BinaryOp) : op.power < .unary := by
  cases op <;> decide

/-- The powers of all keys: only the operators between two operands have one. -/
theorem power_standard (key : Key) :
    (Grammar.standard.powers.get? key).getD .lowest =
      match key with
      | .symbol s => ((BinaryOp.ofSymbol? s).map BinaryOp.power).getD .lowest
      | .tokenClass _ => .lowest := by
  cases key with
  | tokenClass k => cases k <;> rfl
  | symbol s => cases s <;> rfl

theorem power_of_is {t : Token} {op : BinaryOp} (h : t.is op.symbol = true) :
    Grammar.standard.power t = op.power := by
  unfold Grammar.power
  rw [power_standard, Token.is_iff_key.1 h]
  cases op <;> rfl

theorem exists_operator_of_lt {t : Token} {floor : BindingPower}
    (h : floor < Grammar.standard.power t) : ∃ op : BinaryOp, t.is op.symbol = true := by
  unfold Grammar.power at h
  rw [power_standard] at h
  split at h
  · rename_i s hKey
    cases hOp : BinaryOp.ofSymbol? s with
    | none =>
      rw [hOp] at h
      exact absurd h (BindingPower.not_lt_lowest floor)
    | some op =>
      rw [BinaryOp.ofSymbol?_eq_some_iff] at hOp
      exact ⟨op, Token.is_iff_key.2 (hOp ▸ hKey)⟩
  · exact absurd h (BindingPower.not_lt_lowest floor)

theorem power_of_not_operator {t : Token} (h : ∀ op : BinaryOp, ¬ t.is op.symbol = true) :
    Grammar.standard.power t = .lowest := by
  have hNot : ¬ BindingPower.lowest < Grammar.standard.power t := by
    intro hLt
    obtain ⟨op, hOp⟩ := exists_operator_of_lt hLt
    exact h op hOp
  revert hNot
  generalize Grammar.standard.power t = k
  cases k <;> decide

theorem operatorRule_of_is {t : Token} {op : BinaryOp} (h : t.is op.symbol = true) :
    Grammar.standard.operators.get? t.key = some .binary := by
  rw [Token.is_iff_key.1 h]
  cases op <;> rfl

theorem binaryOp_of_is {t : Token} {op : BinaryOp} (h : t.is op.symbol = true) :
    t.symbol?.bind BinaryOp.ofSymbol? = some op := by
  rw [Token.is_iff.1 h]
  exact BinaryOp.ofSymbol?_eq_some_iff.2 rfl

theorem binaryOp_unique {t : Token} {op op' : BinaryOp} (h : t.is op.symbol = true)
    (h' : t.is op'.symbol = true) : op = op' :=
  Option.some.inj ((binaryOp_of_is h).symm.trans (binaryOp_of_is h'))

theorem unaryOp_of_is {t : Token} {op : UnaryOp} (h : t.is op.symbol = true) :
    t.symbol?.bind UnaryOp.ofSymbol? = some op := by
  rw [Token.is_iff.1 h]
  exact UnaryOp.ofSymbol?_eq_some_iff.2 rfl

/-! ## Statements -/

theorem statementRule_eq (t : Token) :
    Grammar.standard.statements.get? t.key =
      if t.is .varWord then some .varDecl
      else if t.is .returnWord then some .ret
      else none := by
  have hTable : ∀ key : Key, Grammar.standard.statements.get? key =
      if key = .symbol .varWord then some .varDecl
      else if key = .symbol .returnWord then some .ret
      else none := by
    intro key
    cases key with
    | tokenClass k => cases k <;> rfl
    | symbol s => cases s <;> rfl
  rw [hTable]
  simp only [Token.is_iff_key]

end Frontend
