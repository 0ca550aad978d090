import Frontend.Proofs.Parse.Rendering
import Frontend.Proofs.Token.Reads
import Frontend.Proofs.Tree.Text

/-!
# The tokens of a printed tree

The text of a spelled tree that exposes no name is read as a rendering of the tree, up to truth
values and names that have the same text. This holds before every rest that the text does not run
into: a word or a number at the end of the text must not go on in the rest, and a name that is
spelled like a keyword must not be taken for one.

* `legibleCondition_unary`, `legibleCondition_binary`: an application is read as a rendering in
  parentheses, whatever stands behind it.
* `legible_cond`, `legible_condElse`: a conditional is read if its condition and its blocks are.
* `legible_expr`, `legible_body`, `reads_stmt`: every spelled tree without an exposed name is read
  as a rendering of a tree with its plain form.
-/

namespace Frontend

open Rule (isWordChar endsKeyword)

/-! ## What may stand behind a text -/

/-- No word and no number goes on from the text into the rest. -/
def Apart (text rest : List Char) : Prop :=
  ∀ a ∈ text.getLast?, isWordChar a = true → ∀ b ∈ rest.head?, isWordChar b = false ∧ b ≠ '.'

variable {text rest : List Char}

theorem apart_of_head (h : ∀ b ∈ rest.head?, isWordChar b = false ∧ b ≠ '.') : Apart text rest :=
  fun _ _ _ => h

theorem apart_symbol {s : Symbol} (h : s.tokenClass ≠ .keyword) :
    Apart text (s.spelling.toList ++ rest) := by
  refine apart_of_head fun b hb => ?_
  cases s with
  | ifWord | elseWord | forWord | varWord | returnWord | fnWord => exact absurd rfl h
  | _ =>
    cases hb
    decide

theorem apart_blank : Apart text (' ' :: rest) := by
  refine apart_of_head fun b hb => ?_
  cases hb
  decide

theorem Apart.head (h : Apart text rest) (hText : text ≠ [])
    (hChars : ∀ c ∈ text, isWordChar c = true) :
    ∀ b ∈ rest.head?, isWordChar b = false ∧ b ≠ '.' := by
  have hLast := List.getLast?_eq_some_getLast hText
  exact h _ hLast (hChars _ (List.getLast_mem hText))

theorem endsKeyword_symbol {s : Symbol} (h : s.tokenClass ≠ .keyword) (hParen : s ≠ .openParen) :
    endsKeyword (s.spelling.toList ++ rest) = false := by
  cases s with
  | ifWord | elseWord | forWord | varWord | returnWord | fnWord => exact absurd rfl h
  | openParen => exact absurd rfl hParen
  | _ => rfl

/-- The text of the expression ends where the rest begins. -/
structure Expr.EndsBefore (e : Expr) (rest : List Char) : Prop where
  apart : Apart e.text.toList rest
  notKeyword : e.isKeyword = true → endsKeyword rest = false

/-- The text of the statement ends where the rest begins. -/
structure Stmt.EndsBefore (s : Stmt) (rest : List Char) : Prop where
  apart : Apart s.text.toList rest
  notKeyword : s.isKeyword = true → endsKeyword rest = false

theorem Stmt.EndsBefore.expr {e : Expr} (h : (Stmt.expr e).EndsBefore rest) :
    e.EndsBefore rest := by
  have hApart := h.apart
  rw [Stmt.text] at hApart
  exact ⟨hApart, h.notKeyword⟩

theorem Expr.endsBefore_symbol (e : Expr) {s : Symbol} (h : s.tokenClass ≠ .keyword)
    (hParen : s ≠ .openParen) : e.EndsBefore (s.spelling.toList ++ rest) :=
  ⟨apart_symbol h, fun _ => endsKeyword_symbol h hParen⟩

/-! ## Renderings of similar trees -/

/-- Whether the text of the expression ends with a conditional that has no second block. -/
def Expr.isDangling : Expr → Bool
  | .cond _ _ none => true
  | _ => false

/-- The tokens do not begin with a dash, which could go on with an expression before them. -/
def NoDash (ts : List Token) : Prop :=
  ∀ t ∈ ts.head?, ¬ t.is .dash = true

/-- The tokens are a rendering of an expression with the same plain form. No operator stands outside
of parentheses. -/
def RendersLike (e : Expr) (ts : List Token) : Prop :=
  ∃ e', Renders e' none e.isDangling ts ∧ e'.plain = e.plain ∧ NoDash ts

/-- The tokens are a rendering of an expression with the same plain form, and parentheses around
it. -/
def RendersEnclosed (e : Expr) : List Token → Prop :=
  Between .openParen .closeParen fun inner =>
    ∃ e' top dangling, Renders e' top dangling inner ∧ e'.plain = e.plain

/-- The tokens are a rendering of a block with the same plain form. -/
def RendersBlockLike (body : List Stmt) (ts : List Token) : Prop :=
  ∃ body', RendersBlock body' ts ∧ bodyPlain body' = bodyPlain body

/-- The tokens are a rendering of statements with the same plain form. -/
def RendersBodyLike (body : List Stmt) (ts : List Token) : Prop :=
  ∃ body', RendersBody body' ts ∧ bodyPlain body' = bodyPlain body ∧ NoDash ts

/-- Whether the text of the statement ends with a semicolon. -/
def Stmt.isEnded : Stmt → Bool
  | .expr _ => false
  | _ => true

/-- The tokens are a rendering of a statement with the same plain form. -/
def RendersStmtLike (s : Stmt) (ts : List Token) : Prop :=
  ∃ s', RendersStmt s' s.isEnded ts ∧ s'.plain = s.plain ∧ NoDash ts

theorem noDash_of_is {t : Token} {s : Symbol} {ts : List Token} (h : t.is s = true)
    (hs : s ≠ .dash) : NoDash (t :: ts) := by
  rintro _ ⟨⟩ hDash
  exact hs (Token.is_unique h hDash)

theorem noDash_of_tokenClass {t : Token} {ts : List Token} (h : t.tokenClass ≠ .operator) :
    NoDash (t :: ts) := by
  rintro _ ⟨⟩ hDash
  exact h (Token.tokenClass_of_is hDash)

theorem RendersEnclosed.like {e : Expr} {ts : List Token} (h : RendersEnclosed e ts)
    (hNot : e.isDangling = false) : RendersLike e ts := by
  obtain ⟨opening, inner, close, rfl, hOpening, hClose, e', top, dangling, hRenders, hPlain⟩ := h
  refine ⟨e', ?_, hPlain, noDash_of_is hOpening nofun⟩
  rw [hNot]
  exact .group hOpening hClose hRenders

/-! ## Literals and names -/

/-- The text of the expression is read as a rendering of the expression, whatever stands behind
it. -/
def Expr.Legible (e : Expr) : Prop :=
  ∀ rest, e.EndsBefore rest → Reads e.text.toList rest (RendersLike e)

theorem reads_int {v : Int64} (h : 0 ≤ v) (hApart : Apart (Expr.int v).text.toList rest) :
    Reads (Expr.int v).text.toList rest fun ts => ∃ t, ts = [t] ∧ t.tokenClass = .number ∧
      Decimal.toInt64? t.lexeme = some v := by
  have hDigits : (Expr.int v).text.toList = Decimal.digits v.toInt.natAbs := by
    rw [Expr.text, Decimal.toList_ofInt h]
  have hNumber : ∀ c ∈ (Expr.int v).text.toList, c.isDigit = true := by
    rw [hDigits]
    exact fun c hc => Decimal.isDigit_of_mem_digits hc
  have hText : (Expr.int v).text.toList ≠ [] := by
    rw [hDigits]
    exact Decimal.digits_ne_nil _
  have hRest := hApart.head hText fun c hc => isWordChar_of_isDigit (hNumber c hc)
  refine reads_token (classify_number hText hNumber hRest) nofun fun t hClass hLexeme => ?_
  rw [String.ofList_toList] at hLexeme
  refine ⟨t, rfl, hClass, ?_⟩
  rw [hLexeme, Expr.text, Decimal.toInt64?_ofInt h]

theorem legible_int {v : Int64} (h : 0 ≤ v) : (Expr.int v).Legible := by
  intro rest hEnds
  refine (reads_int h hEnds.apart).imp ?_
  rintro _ ⟨t, rfl, hClass, hValue⟩
  exact ⟨.int v, .int hClass hValue, rfl, noDash_of_tokenClass (by simp [hClass])⟩

/-- The tokens are one word with the spelling, or a truth value with the spelling. -/
def Word (n : String) (ts : List Token) : Prop :=
  ∃ t, ts = [t] ∧ t.lexeme = n ∧
    (t.tokenClass = .identifier ∨ t.tokenClass = .boolean ∧ ∃ b, n = Truth.text b)

theorem reads_name {n : String} (h : isWord n = true) (hApart : Apart n.toList rest)
    (hNot : spellsKeyword n = true → endsKeyword rest = false) : Reads n.toList rest (Word n) := by
  obtain ⟨hText, hChars, hDigit⟩ := isWord_iff.1 h
  have hKeyword : ∀ s : Symbol, s.tokenClass = .keyword → n.toList = s.spelling.toList →
      endsKeyword rest = false :=
    fun s hs hSpelled => hNot (spellsKeyword_iff.2 ⟨s, hs, String.toList_inj.1 hSpelled⟩)
  have hFront : WordFront n.toList rest :=
    ⟨hText, hChars, fun b hb => (hApart.head hText hChars b hb).1⟩
  rcases classify_name hFront hDigit hKeyword with hFound | ⟨hFound, b, hTruth⟩
  · refine reads_token hFound nofun fun t hClass hLexeme => ⟨t, rfl, ?_, Or.inl hClass⟩
    rw [hLexeme, String.ofList_toList]
  · refine reads_token hFound nofun fun t hClass hLexeme =>
      ⟨t, rfl, ?_, Or.inr ⟨hClass, b, String.toList_inj.1 hTruth⟩⟩
    rw [hLexeme, String.ofList_toList]

theorem Word.renders {n : String} {ts : List Token} (h : Word n ts) :
    RendersLike (.name n) ts := by
  obtain ⟨t, rfl, hLexeme, hClass | ⟨hClass, b, hTruth⟩⟩ := h
  · exact ⟨.name n, .name hClass hLexeme, rfl, noDash_of_tokenClass (by simp [hClass])⟩
  · refine ⟨.bool b, .bool hClass (hLexeme.trans hTruth), ?_,
      noDash_of_tokenClass (by simp [hClass])⟩
    rw [Expr.plain, Expr.plain, hTruth]

theorem legible_name {n : String} (h : isWord n = true) : (Expr.name n).Legible :=
  fun _ hEnds => (reads_name h hEnds.apart hEnds.notKeyword).imp fun _ => Word.renders

/-- A truth value reads like the name with its spelling. -/
theorem reads_bool (b : Bool) (hApart : Apart (Expr.bool b).text.toList rest) :
    Reads (Expr.bool b).text.toList rest (Word (Truth.text b)) := by
  have hWord : isWord (Truth.text b) = true := by cases b <;> decide
  have hNot : spellsKeyword (Truth.text b) = false := by cases b <;> decide
  rw [Expr.text] at hApart ⊢
  refine reads_name hWord hApart fun hKeyword => ?_
  rw [hNot] at hKeyword
  cases hKeyword

theorem legible_bool (b : Bool) : (Expr.bool b).Legible :=
  fun _ hEnds => (reads_bool b hEnds.apart).imp fun _ hWord => hWord.renders

theorem reads_variable {n : String} (h : isWord n = true) (hTruth : spellsTruth n = false)
    (hApart : Apart n.toList rest) (hNot : spellsKeyword n = true → endsKeyword rest = false) :
    Reads n.toList rest fun ts => ∃ t, ts = [t] ∧ t.tokenClass = .identifier ∧ t.lexeme = n := by
  refine (reads_name h hApart hNot).imp ?_
  rintro ts ⟨t, rfl, hLexeme, hClass | ⟨-, hSpelled⟩⟩
  · exact ⟨t, rfl, hClass, hLexeme⟩
  · rw [spellsTruth_iff.2 hSpelled] at hTruth
    cases hTruth

/-! ## Conditions -/

/-- The text of the condition is read as a rendering in parentheses, whatever stands behind it. -/
def Expr.LegibleCondition (c : Expr) : Prop :=
  ∀ rest, Reads (conditionText c).toList rest (RendersEnclosed c)

/-- What is no application has parentheses put around it as a condition. -/
theorem Expr.Legible.condition {c : Expr} (h : c.Legible) (hNot : c.isApplication = false) :
    c.LegibleCondition := by
  intro rest
  rw [toList_conditionText hNot]
  have hInner := h (Symbol.closeParen.spelling.toList ++ rest) (c.endsBefore_symbol nofun nofun)
  refine (reads_between (by decide) (by decide) hInner).imp ?_
  rintro ts ⟨opening, inner, close, rfl, hOpening, hClose, c', hRenders, hPlain, -⟩
  exact ⟨opening, inner, close, rfl, hOpening, hClose, c', none, _, hRenders, hPlain⟩

/-- An application has parentheses of its own. -/
theorem Expr.LegibleCondition.legible {c : Expr} (h : c.LegibleCondition)
    (hIs : c.isApplication = true) : c.Legible := by
  intro rest _
  have hRead := h rest
  have hNot : c.isDangling = false := by
    cases c with
    | unary | binary => rfl
    | _ => cases hIs
  rw [conditionText_of_isApplication hIs] at hRead
  exact hRead.imp fun _ hEnclosed => hEnclosed.like hNot

/-! ## Applications -/

theorem Starts.not_mark (h : Starts text) :
    ∀ c ∈ (text ++ rest).head?, c ∉ ['=', '+', '-'] := by
  obtain ⟨d, tail, rfl, hChar⟩ := h
  rintro c ⟨⟩ hMem
  simp only [List.mem_cons, List.not_mem_nil, or_false] at hMem
  rcases hMem with rfl | rfl | rfl <;> revert hChar <;> decide

theorem Starts.not_blank (h : Starts text) :
    ∀ c ∈ (text ++ rest).head?, Text.isBlank c = false := by
  obtain ⟨d, tail, rfl, hChar | rfl⟩ := h
  · intro c hC
    cases hC
    exact isBlank_of_isWordChar hChar
  · intro c hC
    cases hC
    decide

theorem UnaryOp.tokenClass_symbol (op : UnaryOp) : op.symbol.tokenClass = .operator := by
  cases op <;> rfl

theorem BinaryOp.tokenClass_symbol (op : BinaryOp) : op.symbol.tokenClass = .operator := by
  cases op <;> rfl

theorem legibleCondition_unary {op : UnaryOp} {e : Expr} (h : e.Legible)
    (hStarts : Starts e.text.toList) : (Expr.unary op e).LegibleCondition := by
  intro rest
  have hInner := (reads_operator (Or.inl op.tokenClass_symbol) hStarts.not_mark).append
    (h (Symbol.closeParen.spelling.toList ++ rest) (e.endsBefore_symbol nofun nofun))
  rw [conditionText_of_isApplication rfl, toList_unary]
  refine (reads_between (by decide) (by decide) hInner).imp ?_
  rintro ts ⟨opening, _, close, rfl, hOpening, hClose, _, inner, rfl, ⟨t, rfl, hIs⟩,
    e', hRenders, hPlain, -⟩
  refine ⟨opening, t :: inner, close, rfl, hOpening, hClose, .unary op e', none, _,
    .unary hIs hRenders, ?_⟩
  rw [Expr.plain, Expr.plain, hPlain]

theorem legibleCondition_binary {op : BinaryOp} {l r : Expr} (hLeft : l.Legible)
    (hRight : r.Legible) (hStarts : Starts r.text.toList) :
    (Expr.binary op l r).LegibleCondition := by
  intro rest
  have hOperand := (reads_operator (Or.inl op.tokenClass_symbol) hStarts.not_mark).append
    (hRight (Symbol.closeParen.spelling.toList ++ rest) (r.endsBefore_symbol nofun nofun))
  have hBefore : l.EndsBefore ((op.symbol.spelling.toList ++ r.text.toList) ++
      (Symbol.closeParen.spelling.toList ++ rest)) := by
    rw [List.append_assoc]
    exact l.endsBefore_symbol (by simp [op.tokenClass_symbol]) (by cases op <;> decide)
  rw [conditionText_of_isApplication rfl, toList_binary]
  refine (reads_between (by decide) (by decide) ((hLeft _ hBefore).append hOperand)).imp ?_
  rintro ts ⟨opening, _, close, rfl, hOpening, hClose, tsL, _, rfl,
    ⟨l', hRendersL, hPlainL, -⟩, _, tsR, rfl, ⟨t, rfl, hIs⟩, r', hRendersR, hPlainR, -⟩
  refine ⟨opening, tsL ++ t :: tsR, close, rfl, hOpening, hClose, .binary op l' r',
    some op.power, _, .binary hIs hRendersL hRendersR (by simp) (by simp), ?_⟩
  rw [Expr.plain, Expr.plain, hPlainL, hPlainR]

/-! ## Blocks and conditionals -/

/-- The text of the statements is read as a rendering of them up to the brace behind it. -/
def LegibleBody (body : List Stmt) : Prop :=
  ∀ rest, Reads (bodyText body).toList (Symbol.closeCurly.spelling.toList ++ rest)
    (RendersBodyLike body)

theorem reads_braced {body : List Stmt} (h : LegibleBody body) :
    Reads (braced (bodyText body)).toList rest (RendersBlockLike body) := by
  rw [toList_braced]
  refine (reads_between (by decide) (by decide) (h rest)).imp ?_
  rintro ts ⟨opening, inner, close, rfl, hOpening, hClose, body', hRenders, hPlain, -⟩
  exact ⟨body', .braced hOpening hClose hRenders, hPlain⟩

theorem starts_braced (text : String) (rest : List Char) :
    ∀ c ∈ ((braced text).toList ++ rest).head?, Text.isBlank c = false := by
  simp only [braced, String.toList_append]
  intro c hC
  cases hC
  decide

/-- The word `if`, the condition and the first block. -/
theorem reads_front {c : Expr} {body : List Stmt} (hCondition : c.LegibleCondition)
    (hBody : LegibleBody body) :
    Reads (Expr.cond c body none).text.toList rest (InTurn (One .ifWord)
      (InTurn (RendersEnclosed c) (InTurn (· = []) (RendersBlockLike body)))) := by
  have hBlock : Reads ([' '] ++ (braced (bodyText body)).toList) rest
      (InTurn (· = []) (RendersBlockLike body)) :=
    (reads_blank (starts_braced _ _)).append (reads_braced hBody)
  have hParen : ∀ d ∈ (((conditionText c).toList ++ ([' '] ++ (braced (bodyText body)).toList)) ++
      rest).head?, Text.isBlank d = false := by
    obtain ⟨tail, hTail⟩ := exists_conditionText c
    rw [hTail]
    intro d hD
    cases hD
    decide
  rw [toList_cond]
  exact (reads_keyword_blank rfl hParen).append ((hCondition _).append hBlock)

theorem legible_cond {c : Expr} {body : List Stmt} (hCondition : c.LegibleCondition)
    (hBody : LegibleBody body) : (Expr.cond c body none).Legible := by
  intro rest _
  refine (reads_front hCondition hBody).imp ?_
  rintro _ ⟨_, _, rfl, ⟨word, rfl, hWord⟩, _, _, rfl,
    ⟨opening, ts, close, rfl, hOpening, hClose, c', top, dangling, hRenders, hPlain⟩,
    _, tsBody, rfl, rfl, body', hBlock, hPlainBody⟩
  refine ⟨.cond c' body' none, ?_, ?_, noDash_of_is hWord nofun⟩
  · simpa [Expr.isDangling] using Renders.cond hWord hOpening hClose hRenders hBlock
  · rw [Expr.plain, Expr.plain, hPlain, hPlainBody]

theorem legible_condElse {c : Expr} {body other : List Stmt}
    (hCondition : c.LegibleCondition) (hBody : LegibleBody body) (hOther : LegibleBody other) :
    (Expr.cond c body (some other)).Legible := by
  intro rest _
  have hElse : Reads ((Symbol.elseWord.spelling.toList ++ [' ']) ++
      (braced (bodyText other)).toList) rest (InTurn (One .elseWord) (RendersBlockLike other)) :=
    (reads_keyword_blank rfl (starts_braced _ _)).append (reads_braced hOther)
  have hWordElse : ∀ d ∈ (((Symbol.elseWord.spelling.toList ++ [' ']) ++
      (braced (bodyText other)).toList) ++ rest).head?, Text.isBlank d = false := by
    intro d hD
    cases hD
    decide
  rw [toList_condElse]
  refine ((reads_front hCondition hBody).append ((reads_blank hWordElse).append hElse)).imp ?_
  rintro _ ⟨_, _, rfl, ⟨_, _, rfl, ⟨word, rfl, hWord⟩, _, _, rfl,
    ⟨opening, ts, close, rfl, hOpening, hClose, c', top, dangling, hRenders, hPlain⟩,
    _, tsBody, rfl, rfl, body', hBlock, hPlainBody⟩,
    _, _, rfl, rfl, _, tsOther, rfl, ⟨wordElse, rfl, hIsElse⟩, other', hBlockOther, hPlainOther⟩
  refine ⟨.cond c' body' (some other'), ?_, ?_, noDash_of_is hWord nofun⟩
  · simpa [Expr.isDangling] using
      Renders.condElse hWord hOpening hClose hIsElse hRenders hBlock hBlockOther
  · rw [Expr.plain, Expr.plain, hPlain, hPlainBody, hPlainOther]

/-! ## Statements -/

theorem reads_ended {e : Expr} (h : e.Legible) :
    Reads (e.text.toList ++ Symbol.semicolon.spelling.toList) rest
      (InTurn (RendersLike e) (One .semicolon)) :=
  (h _ (e.endsBefore_symbol (by decide) (by decide))).append (reads_bracket (Or.inl rfl))

theorem reads_ret {e : Expr} (h : e.Legible) (hStarts : Starts e.text.toList) :
    Reads (Stmt.ret e).text.toList rest (RendersStmtLike (.ret e)) := by
  rw [toList_ret]
  refine ((reads_keyword_blank rfl (hStarts.append _).not_blank).append
    (reads_ended h)).imp ?_
  rintro _ ⟨_, _, rfl, ⟨word, rfl, hWord⟩, ts, _, rfl, ⟨e', hRenders, hPlain, -⟩,
    close, rfl, hClose⟩
  refine ⟨.ret e', .ret hWord hClose hRenders, ?_, noDash_of_is hWord nofun⟩
  rw [Stmt.plain, Stmt.plain, hPlain]

theorem reads_declaration {n : String} (h : isWord n = true) (hTruth : spellsTruth n = false) :
    Reads (Stmt.varDecl n none).text.toList rest (RendersStmtLike (.varDecl n none)) := by
  have hStarts : Starts n.toList := starts_of_word (isWord_iff.1 h).1 (isWord_iff.1 h).2.1
  have hClose : Reads Symbol.semicolon.spelling.toList rest (One .semicolon) :=
    reads_bracket (Or.inl rfl)
  have hName := (reads_variable h hTruth (apart_symbol (by decide)) fun _ => rfl).append hClose
  rw [toList_declaration]
  refine ((reads_keyword_blank rfl (hStarts.append _).not_blank).append hName).imp ?_
  rintro _ ⟨_, _, rfl, ⟨word, rfl, hWord⟩, _, _, rfl, ⟨name, rfl, hClass, hLexeme⟩,
    close, rfl, hEnd⟩
  exact ⟨.varDecl n none, .declaration hWord hClass hLexeme hEnd, rfl,
    noDash_of_is hWord nofun⟩

theorem reads_varDecl {n : String} {e : Expr} (h : isWord n = true) (hTruth : spellsTruth n = false)
    (hNot : spellsKeyword n = false) (hValue : e.Legible) (hStarts : Starts e.text.toList) :
    Reads (Stmt.varDecl n (some e)).text.toList rest (RendersStmtLike (.varDecl n (some e))) := by
  have hName : Starts n.toList := starts_of_word (isWord_iff.1 h).1 (isWord_iff.1 h).2.1
  have hEnded : Reads (e.text.toList ++ Symbol.semicolon.spelling.toList) rest
      (InTurn (RendersLike e) (One .semicolon)) := reads_ended hValue
  have hValueBehind := (reads_blank (hStarts.append _).not_blank).append hEnded
  have hSign : ∀ c ∈ (([' '] ++ (e.text.toList ++ Symbol.semicolon.spelling.toList)) ++ rest).head?,
      c ∉ ['=', '+', '-'] := by
    intro c hC
    cases hC
    decide
  have hSignBehind := (reads_operator (Or.inr rfl) hSign).append hValueBehind
  have hBlank : ∀ c ∈ ((Symbol.assignment.spelling.toList ++ ([' '] ++
      (e.text.toList ++ Symbol.semicolon.spelling.toList))) ++ rest).head?,
      Text.isBlank c = false := by
    intro c hC
    cases hC
    decide
  have hNameBehind := (reads_variable h hTruth apart_blank (by simp [hNot])).append
    ((reads_blank hBlank).append hSignBehind)
  rw [toList_varDecl]
  refine ((reads_keyword_blank rfl (hName.append _).not_blank).append hNameBehind).imp ?_
  rintro _ ⟨_, _, rfl, ⟨word, rfl, hWord⟩, _, _, rfl, ⟨name, rfl, hClass, hLexeme⟩,
    _, _, rfl, rfl, _, _, rfl, ⟨sign, rfl, hIsSign⟩, _, _, rfl, rfl, ts, _, rfl,
    ⟨e', hRenders, hPlain, -⟩, close, rfl, hClose⟩
  refine ⟨.varDecl n (some e'),
    .varDecl hWord hClass hLexeme hIsSign hClose hRenders, ?_, noDash_of_is hWord nofun⟩
  rw [Stmt.plain, Stmt.plain, hPlain]

theorem reads_exprStmt {e : Expr} (h : e.Legible) (hEnds : e.EndsBefore rest) :
    Reads (Stmt.expr e).text.toList rest (RendersStmtLike (.expr e)) := by
  rw [Stmt.text]
  refine (h rest hEnds).imp ?_
  rintro ts ⟨e', hRenders, hPlain, hDash⟩
  refine ⟨.expr e', .expr hRenders, ?_, hDash⟩
  rw [Stmt.plain, Stmt.plain, hPlain]

/-- Statements one behind the other, where the texts of the first and the others are known to be
read so. -/
theorem RendersStmtLike.cons {s : Stmt} {body : List Stmt} {ts tsBody : List Token}
    (hStmt : RendersStmtLike s ts) (hBody : RendersBodyLike body tsBody) :
    RendersBodyLike (s :: body) (ts ++ tsBody) := by
  obtain ⟨s', hRenders, hPlain, hDash⟩ := hStmt
  obtain ⟨body', hRendersBody, hPlainBody, hDashBody⟩ := hBody
  refine ⟨s' :: body', .cons hRenders hRendersBody fun _ => hDashBody, ?_, ?_⟩
  · rw [bodyPlain, bodyPlain, hPlain, hPlainBody]
  · obtain ⟨t, tail, rfl, -⟩ := hRenders.exists_begins
    exact hDash

theorem rendersBodyLike_nil : RendersBodyLike [] [] :=
  ⟨[], .nil, rfl, nofun⟩

/-! ## All legible trees -/

mutual

/-- The text of a spelled expression without an exposed name is read as a rendering of it, also
where the expression is a condition. -/
theorem legible_expr (e : Expr) (hSpelled : e.isSpelled = true) (hExposed : e.isExposed = false) :
    e.Legible ∧ e.LegibleCondition := by
  match e with
  | .int v =>
    have hLegible := legible_int (by simpa [Expr.isSpelled] using hSpelled)
    exact ⟨hLegible, hLegible.condition rfl⟩
  | .bool b => exact ⟨legible_bool b, (legible_bool b).condition rfl⟩
  | .name n => exact ⟨legible_name hSpelled, (legible_name hSpelled).condition rfl⟩
  | .unary op e =>
    have hCondition : (Expr.unary op e).LegibleCondition :=
      legibleCondition_unary (legible_expr e hSpelled hExposed).1 (Expr.text_starts hSpelled)
    exact ⟨hCondition.legible rfl, hCondition⟩
  | .binary op l r =>
    rw [Expr.isSpelled, Bool.and_eq_true] at hSpelled
    rw [Expr.isExposed, Bool.or_eq_false_iff] at hExposed
    have hCondition : (Expr.binary op l r).LegibleCondition :=
      legibleCondition_binary (legible_expr l hSpelled.1 hExposed.1).1
        (legible_expr r hSpelled.2 hExposed.2).1 (Expr.text_starts hSpelled.2)
    exact ⟨hCondition.legible rfl, hCondition⟩
  | .cond c body none =>
    rw [Expr.isSpelled, Bool.and_eq_true] at hSpelled
    rw [Expr.isExposed, Bool.or_eq_false_iff] at hExposed
    have hLegible := legible_cond (legible_expr c hSpelled.1 hExposed.1).2
      (legible_body body hSpelled.2 hExposed.2)
    exact ⟨hLegible, hLegible.condition rfl⟩
  | .cond c body (some other) =>
    simp only [Expr.isSpelled, Bool.and_eq_true] at hSpelled
    simp only [Expr.isExposed, Bool.or_eq_false_iff] at hExposed
    have hLegible := legible_condElse (legible_expr c hSpelled.1.1 hExposed.1.1).2
      (legible_body body hSpelled.1.2 hExposed.1.2) (legible_body other hSpelled.2 hExposed.2)
    exact ⟨hLegible, hLegible.condition rfl⟩

theorem reads_stmt (s : Stmt) (hSpelled : s.isSpelled = true) (hExposed : s.isExposed = false)
    {rest : List Char} (hEnds : s.EndsBefore rest) :
    Reads s.text.toList rest (RendersStmtLike s) := by
  match s with
  | .varDecl n none => exact reads_declaration hSpelled hExposed
  | .varDecl n (some e) =>
    rw [Stmt.isSpelled, Bool.and_eq_true] at hSpelled
    simp only [Stmt.isExposed, Bool.or_eq_false_iff] at hExposed
    exact reads_varDecl hSpelled.1 hExposed.1.1 hExposed.1.2
      (legible_expr e hSpelled.2 hExposed.2).1 (Expr.text_starts hSpelled.2)
  | .ret e => exact reads_ret (legible_expr e hSpelled hExposed).1 (Expr.text_starts hSpelled)
  | .expr e => exact reads_exprStmt (legible_expr e hSpelled hExposed).1 hEnds.expr
  | .block body => cases hSpelled

theorem legible_body (body : List Stmt) (hSpelled : bodyIsSpelled body = true)
    (hExposed : bodyIsExposed body = false) : LegibleBody body := by
  intro rest
  match body with
  | [] => exact reads_nil rendersBodyLike_nil
  | [s] =>
    rw [bodyIsSpelled, Bool.and_eq_true] at hSpelled
    have hEnds : s.EndsBefore (Symbol.closeCurly.spelling.toList ++ rest) :=
      ⟨apart_symbol (by decide), fun _ => rfl⟩
    rw [bodyText]
    refine (reads_stmt s hSpelled.1 hExposed hEnds).imp fun ts hStmt => ?_
    simpa using hStmt.cons rendersBodyLike_nil
  | s :: next :: others =>
    -- The blank parts the two texts, so no word goes on across the boundary.
    rw [bodyIsSpelled, Bool.and_eq_true] at hSpelled
    simp only [bodyIsExposed, Bool.or_eq_false_iff] at hExposed
    have hStarts : Starts (bodyText (next :: others)).toList := by
      have hNext := hSpelled.2
      rw [bodyIsSpelled, Bool.and_eq_true] at hNext
      exact bodyText_starts hNext.1
    have hEnds : ∀ behind, s.EndsBefore (' ' :: behind) :=
      fun behind => ⟨apart_blank, by simp [hExposed.1.2]⟩
    rw [toList_bodyText]
    refine ((reads_stmt s hSpelled.1 hExposed.1.1 (hEnds _)).append
      ((reads_blank hStarts.not_blank).append
        (legible_body (next :: others) hSpelled.2 hExposed.2 rest))).imp ?_
    rintro _ ⟨ts, _, rfl, hStmt, _, tsBody, rfl, rfl, hBody⟩
    exact hStmt.cons hBody

end

end Frontend
