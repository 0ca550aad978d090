import Frontend.Proofs.Grammar.Standard

/-!
# Renderings of trees by tokens

A tree can be written in many ways: any part may stand in parentheses, as often as one likes, and a
statement that is an expression may or may not end with a semicolon. A rendering has to put into
parentheses

* a left operand with an operator on top that binds less tightly than the operator behind it,
* a right operand with an operator on top that does not bind more tightly than the one before it,
* the operand of an operator in front of it, if there is an operator between operands on top,
* every condition.

Numbers may be written in every way that is read as their value, and the places of the tokens do not
matter. A block in place of a statement has no rendering.
-/

namespace Frontend

mutual

/-- The tokens are a rendering of the expression. The power is that of the operator on top, if this
operator is not in parentheses. The flag says whether the rendering ends with a conditional that has
no second block. -/
inductive Renders : Expr → Option BindingPower → Bool → List Token → Prop where
  | int {t : Token} {v : Int64} : t.tokenClass = .number →
      Decimal.toInt64? t.lexeme = some v → Renders (.int v) none false [t]
  | bool {t : Token} {b : Bool} : t.tokenClass = .boolean →
      t.lexeme = Truth.text b → Renders (.bool b) none false [t]
  | name {t : Token} {n : String} : t.tokenClass = .identifier → t.lexeme = n →
      Renders (.name n) none false [t]
  | unary {t : Token} {op : UnaryOp} {e : Expr} {dangling : Bool} {ts : List Token} :
      t.is op.symbol = true → Renders e none dangling ts →
      Renders (.unary op e) none dangling (t :: ts)
  | binary {t : Token} {op : BinaryOp} {l r : Expr} {topL topR : Option BindingPower}
      {danglingL danglingR : Bool} {tsL tsR : List Token} :
      t.is op.symbol = true → Renders l topL danglingL tsL → Renders r topR danglingR tsR →
      (∀ k ∈ topL, ¬ k < op.power) → (∀ k ∈ topR, op.power < k) →
      Renders (.binary op l r) (some op.power) danglingR (tsL ++ t :: tsR)
  | group {opening close : Token} {e : Expr} {top : Option BindingPower} {dangling : Bool}
      {ts : List Token} : opening.is .openParen = true → close.is .closeParen = true →
      Renders e top dangling ts → Renders e none false (opening :: (ts ++ [close]))
  | cond {word opening close : Token} {c : Expr} {body : List Stmt} {top : Option BindingPower}
      {dangling : Bool} {ts tsBody : List Token} : word.is .ifWord = true →
      opening.is .openParen = true → close.is .closeParen = true → Renders c top dangling ts →
      RendersBlock body tsBody →
      Renders (.cond c body none) none true (word :: opening :: (ts ++ close :: tsBody))
  | condElse {word opening close wordElse : Token} {c : Expr} {body other : List Stmt}
      {top : Option BindingPower} {dangling : Bool} {ts tsBody tsOther : List Token} :
      word.is .ifWord = true → opening.is .openParen = true → close.is .closeParen = true →
      wordElse.is .elseWord = true → Renders c top dangling ts → RendersBlock body tsBody →
      RendersBlock other tsOther →
      Renders (.cond c body (some other)) none false
        (word :: opening :: (ts ++ close :: (tsBody ++ wordElse :: tsOther)))

/-- The tokens are a rendering of the statements in curly braces. -/
inductive RendersBlock : List Stmt → List Token → Prop where
  | braced {opening close : Token} {body : List Stmt} {ts : List Token} :
      opening.is .openCurly = true → close.is .closeCurly = true → RendersBody body ts →
      RendersBlock body (opening :: (ts ++ [close]))

/-- The tokens are a rendering of the statements one behind the other. Behind an expression without
a semicolon no dash may follow, which would go on with the expression. -/
inductive RendersBody : List Stmt → List Token → Prop where
  | nil : RendersBody [] []
  | cons {s : Stmt} {body : List Stmt} {ended : Bool} {ts tsBody : List Token} :
      RendersStmt s ended ts → RendersBody body tsBody →
      (ended = false → ∀ t ∈ tsBody.head?, ¬ t.is .dash = true) →
      RendersBody (s :: body) (ts ++ tsBody)

/-- The tokens are a rendering of the statement. The flag says whether it ends with a semicolon. -/
inductive RendersStmt : Stmt → Bool → List Token → Prop where
  | declaration {word name close : Token} {n : String} : word.is .varWord = true →
      name.tokenClass = .identifier → name.lexeme = n → close.is .semicolon = true →
      RendersStmt (.varDecl n none) true [word, name, close]
  | varDecl {word name sign close : Token} {n : String} {e : Expr} {top : Option BindingPower}
      {dangling : Bool} {ts : List Token} : word.is .varWord = true →
      name.tokenClass = .identifier → name.lexeme = n → sign.is .assignment = true →
      close.is .semicolon = true → Renders e top dangling ts →
      RendersStmt (.varDecl n (some e)) true (word :: name :: sign :: (ts ++ [close]))
  | ret {word close : Token} {e : Expr} {top : Option BindingPower} {dangling : Bool}
      {ts : List Token} : word.is .returnWord = true → close.is .semicolon = true →
      Renders e top dangling ts → RendersStmt (.ret e) true (word :: (ts ++ [close]))
  | expr {e : Expr} {top : Option BindingPower} {dangling : Bool} {ts : List Token} :
      Renders e top dangling ts → RendersStmt (.expr e) false ts
  | exprEnded {close : Token} {e : Expr} {top : Option BindingPower} {dangling : Bool}
      {ts : List Token} : close.is .semicolon = true → Renders e top dangling ts →
      RendersStmt (.expr e) true (ts ++ [close])

end

/-! ## How a rendering begins -/

theorem Renders.exists_opening {e : Expr} {top : Option BindingPower} {dangling : Bool}
    {ts : List Token} (h : Renders e top dangling ts) :
    ∃ t tail rule, ts = t :: tail ∧ Opening t rule := by
  match h with
  | .int hClass _ => exact ⟨_, _, _, rfl, .integer hClass⟩
  | .bool hClass _ => exact ⟨_, _, _, rfl, .truth hClass⟩
  | .name hClass _ => exact ⟨_, _, _, rfl, .name hClass⟩
  | .unary hIs _ => exact ⟨_, _, _, rfl, .unary _ hIs⟩
  | .binary _ hLeft _ _ _ =>
    obtain ⟨t, tail, rule, rfl, hOpening⟩ := hLeft.exists_opening
    exact ⟨t, _, rule, List.cons_append, hOpening⟩
  | .group hOpening _ _ => exact ⟨_, _, _, rfl, .group hOpening⟩
  | .cond hWord _ _ _ _ => exact ⟨_, _, _, rfl, .cond hWord⟩
  | .condElse hWord _ _ _ _ _ _ => exact ⟨_, _, _, rfl, .cond hWord⟩

/-- What begins a statement: an operand or one of two keywords. -/
def Begins (t : Token) : Prop :=
  (∃ rule, Opening t rule) ∨ t.is .varWord = true ∨ t.is .returnWord = true

theorem RendersStmt.exists_begins {s : Stmt} {ended : Bool} {ts : List Token}
    (h : RendersStmt s ended ts) : ∃ t tail, ts = t :: tail ∧ Begins t := by
  cases h with
  | declaration hWord _ _ _ => exact ⟨_, _, rfl, .inr (.inl hWord)⟩
  | varDecl hWord _ _ _ _ _ => exact ⟨_, _, rfl, .inr (.inl hWord)⟩
  | ret hWord _ _ => exact ⟨_, _, rfl, .inr (.inr hWord)⟩
  | expr hExpr =>
    obtain ⟨t, tail, rule, rfl, hOpening⟩ := hExpr.exists_opening
    exact ⟨t, tail, rfl, .inl ⟨rule, hOpening⟩⟩
  | exprEnded _ hExpr =>
    obtain ⟨t, tail, rule, rfl, hOpening⟩ := hExpr.exists_opening
    exact ⟨t, _, List.cons_append, .inl ⟨rule, hOpening⟩⟩

theorem Begins.not_isEnd {t : Token} (h : Begins t) : ¬ t.isEnd = true := by
  rcases h with ⟨rule, hOpening⟩ | hWord | hWord
  · exact hOpening.not_isEnd
  · exact fun hEnd => Token.not_is_of_isEnd hEnd _ hWord
  · exact fun hEnd => Token.not_is_of_isEnd hEnd _ hWord

theorem Begins.not_is {t : Token} (h : Begins t) {s : Symbol}
    (hs : s ∉ [Symbol.bang, .dash, .openParen, .ifWord, .varWord, .returnWord]) :
    ¬ t.is s = true := by
  simp only [List.mem_cons, List.not_mem_nil, or_false, not_or] at hs
  rcases h with ⟨rule, hOpening⟩ | hWord | hWord
  · exact hOpening.not_is (by simp [hs])
  · exact fun hIs => hs.2.2.2.2.1 (Token.is_unique hIs hWord)
  · exact fun hIs => hs.2.2.2.2.2 (Token.is_unique hIs hWord)

end Frontend
