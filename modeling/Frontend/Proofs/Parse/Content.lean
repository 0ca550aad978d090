import Frontend.Proofs.Grammar.Standard

/-!
# The content of tokens and trees

Brackets and terminators only group what stands between them. Without them, without the mark of the
end and without the places of the tokens, a token list has a content: what its tokens say, in order.
A tree has a content too: what it says when it is written out in the order of the source.

* `Token.content`, `Token.isGrouping`: what a token says, and which tokens say nothing.
* `Expr.contents`, `Stmt.contents`, `bodyContents`: the content of trees.
-/

namespace Frontend

/-! ## Tokens -/

/-- What a token says: which symbol it stands for, which number it is, or how it reads. A number
that is no signed 64-bit integer has no value. -/
inductive Content where
  | symbol (s : Symbol)
  | number (value : Option Int64)
  | word (k : TokenClass) (lexeme : String)
  deriving DecidableEq

namespace Token

/-- What the token says. -/
def content (t : Token) : Content :=
  match t.key with
  | .symbol s => .symbol s
  | .tokenClass .number => .number (Decimal.toInt64? t.lexeme)
  | .tokenClass k => .word k t.lexeme

/-- Whether the token only groups or ends what stands before it. -/
def isGrouping (t : Token) : Bool :=
  t.isEnd || t.is .openParen || t.is .closeParen || t.is .semicolon || t.is .closeCurly

theorem content_of_is {t : Token} {s : Symbol} (h : t.is s = true) : t.content = .symbol s := by
  unfold content
  rw [is_iff_key.1 h]

theorem content_of_number {t : Token} (h : t.tokenClass = .number) :
    t.content = .number (Decimal.toInt64? t.lexeme) := by
  unfold content
  rw [key_of_tokenClass h fun s => s.tokenClass_ne.1]

theorem content_of_boolean {t : Token} (h : t.tokenClass = .boolean) :
    t.content = .word .boolean t.lexeme := by
  unfold content
  rw [key_of_tokenClass h fun s => s.tokenClass_ne.2.1]

theorem content_of_identifier {t : Token} (h : t.tokenClass = .identifier) :
    t.content = .word .identifier t.lexeme := by
  unfold content
  rw [key_of_tokenClass h fun s => s.tokenClass_ne.2.2.1]

/-- The symbols that only group. -/
theorem isGrouping_of_is {t : Token} {s : Symbol} (h : t.is s = true) :
    t.isGrouping =
      decide (s = .openParen ∨ s = .closeParen ∨ s = .semicolon ∨ s = .closeCurly) := by
  have hEnd : t.isEnd = false := by
    cases hIsEnd : t.isEnd with
    | false => rfl
    | true => exact absurd h (not_is_of_isEnd hIsEnd s)
  have hIs : ∀ s', t.is s' = decide (s = s') := by
    intro s'
    by_cases hEq : s = s'
    · subst hEq
      simpa using h
    · rw [decide_eq_false hEq]
      exact Bool.eq_false_iff.2 fun h' => hEq (is_unique h h')
  simp only [isGrouping, hEnd, hIs, Bool.false_or, Bool.decide_or, Bool.or_assoc]

theorem isGrouping_of_tokenClass {t : Token} {k : TokenClass} (h : t.tokenClass = k)
    (hEnd : k ≠ .endOfInput) (hNone : ∀ s : Symbol, s.tokenClass ≠ k) : t.isGrouping = false := by
  have hIs : ∀ s, t.is s = false := by
    intro s
    exact Bool.eq_false_iff.2 fun hIs => hNone s ((tokenClass_of_is hIs).symm.trans h)
  have hIsEnd : t.isEnd = false := by
    rw [isEnd, h]
    exact decide_eq_false hEnd
  simp only [isGrouping, hIsEnd, hIs, Bool.or_false]

theorem isGrouping_of_isEnd {t : Token} (h : t.isEnd = true) : t.isGrouping = true := by
  simp only [isGrouping, h, Bool.true_or]

end Token

/-- What the tokens say that do not only group, in order. -/
def contents (ts : List Token) : List Content :=
  (ts.filter fun t => !t.isGrouping).map Token.content

@[simp] theorem contents_nil : contents [] = [] := rfl

theorem contents_append (a b : List Token) : contents (a ++ b) = contents a ++ contents b := by
  simp only [contents, List.filter_append, List.map_append]

theorem contents_cons_grouping {t : Token} (h : t.isGrouping = true) (rest : List Token) :
    contents (t :: rest) = contents rest := by
  simp only [contents, List.filter_cons, h, Bool.not_true, Bool.false_eq_true, if_false]

theorem contents_cons {t : Token} (h : t.isGrouping = false) (rest : List Token) :
    contents (t :: rest) = t.content :: contents rest := by
  simp only [contents, List.filter_cons, h, Bool.not_false, if_true, List.map_cons]

theorem contents_take_add (ts : List Token) (a b : Nat) :
    contents (ts.take (a + b)) = contents (ts.take a) ++ contents ((ts.drop a).take b) := by
  rw [List.take_add, contents_append]

theorem contents_cons_symbol {t : Token} {s : Symbol} (h : t.is s = true)
    (hKept : ¬ (s = .openParen ∨ s = .closeParen ∨ s = .semicolon ∨ s = .closeCurly))
    (rest : List Token) : contents (t :: rest) = .symbol s :: contents rest := by
  rw [contents_cons, Token.content_of_is h]
  rw [Token.isGrouping_of_is h]
  exact decide_eq_false hKept

/-! ## Trees -/

mutual

/-- The content of an expression. -/
def Expr.contents : Expr → List Content
  | .int v => [.number (some v)]
  | .bool b => [.word .boolean (Truth.text b)]
  | .name n => [.word .identifier n]
  | .unary op e => .symbol op.symbol :: e.contents
  | .binary op l r => l.contents ++ .symbol op.symbol :: r.contents
  | .cond c body none =>
    .symbol .ifWord :: c.contents ++ .symbol .openCurly :: bodyContents body
  | .cond c body (some other) =>
    .symbol .ifWord :: c.contents ++ .symbol .openCurly :: bodyContents body ++
      .symbol .elseWord :: .symbol .openCurly :: bodyContents other

/-- The content of a statement. -/
def Stmt.contents : Stmt → List Content
  | .varDecl n none => [.symbol .varWord, .word .identifier n]
  | .varDecl n (some e) =>
    .symbol .varWord :: .word .identifier n :: .symbol .assignment :: e.contents
  | .ret e => .symbol .returnWord :: e.contents
  | .expr e => e.contents
  | .block body => .symbol .openCurly :: bodyContents body

/-- The content of a list of statements. -/
def bodyContents : List Stmt → List Content
  | [] => []
  | s :: rest => s.contents ++ bodyContents rest

end

end Frontend
