import Frontend.Proofs.Parse.Failure

/-!
# Exposed names are reported

Where a name is exposed in a tree, the text of the tree is not read back: the parse of it reports
something, whatever stands behind the text. The report is found where the name is, and comes up to
the whole.

* `Follows`: what may stand behind a statement of a block.
* `stmtFails_keyword`: a name that is read as a keyword, before the next statement.
* `failsToRead_of_exposed`, `stmtFails_of_exposed`, `bodyFails_of_exposed`: the induction on trees.
-/

namespace Frontend.Parse

open Rule (endsKeyword endsTruth)

variable {p : Setting} {t : Token} {ts us rest : List Token} {back : List Char}
  {others : List Stmt} {Q : List Token → Prop}

/-! ## What stands behind a statement -/

/-- The tokens do not go on with a statement of a block. An `else` would, but no block follows
it. -/
structure Follows (p : Setting) (ts : List Token) : Prop where
  symbol : ∀ s, (p.current ts).is s = true →
    s.tokenClass = .keyword ∨ s = .openParen ∨ s = .closeCurly
  elseWord : (p.current ts).is .elseWord = true → ¬ (p.next ts).is .openCurly = true

theorem Follows.not_is (h : Follows p ts) {s : Symbol} (hClass : s.tokenClass ≠ .keyword)
    (hParen : s ≠ .openParen) (hCurly : s ≠ .closeCurly) : ¬ (p.current ts).is s = true := by
  intro hIs
  rcases h.symbol s hIs with hKeyword | hOpen | hClose
  · exact hClass hKeyword
  · exact hParen hOpen
  · exact hCurly hClose

theorem Follows.not_lt (hp : p.IsStandard) (h : Follows p ts) (floor : BindingPower) :
    ¬ floor < p.grammar.power (p.current ts) := by
  rw [hp.grammar, power_of_not_operator fun op => ?_]
  · exact BindingPower.not_lt_lowest floor
  · exact h.not_is (by cases op <;> decide) (by cases op <;> decide) (by cases op <;> decide)

/-- The first token of a text that begins like a tree. -/
theorem yields_starts {text : List Char} (h : Starts text) (back : List Char) :
    Yields (text ++ back) fun ts => ∃ t tail, ts = t :: tail ∧ t.isEnd = false ∧
      ∀ s, t.is s = true → s.tokenClass = .keyword ∨ s = .openParen := by
  have hParen : ∀ s : Symbol, s.spelling.toList.head? = some '(' → s = .openParen := by
    intro s
    cases s <;> decide
  obtain ⟨c, tail, rfl, hc⟩ := h
  refine (yields_first hc).imp ?_
  rintro _ ⟨t, ts, rfl, hEnd, hSymbol⟩
  refine ⟨t, ts, rfl, hEnd, fun s hIs => ?_⟩
  have hHead := hSymbol s hIs
  by_cases hKeyword : s.tokenClass = .keyword
  · exact Or.inl hKeyword
  · rcases hc with hWord | rfl
    · rw [Symbol.not_isWordChar_head hKeyword c hHead] at hWord
      cases hWord
    · exact Or.inr (hParen s hHead)

/-- How the tokens of a statement begin. A leaf is a single token, and what follows it satisfies the
predicate. -/
inductive BeginsAs (Q : List Token → Prop) : Stmt → List Token → Prop where
  | leaf {e : Expr} {t : Token} {vs : List Token} : t.symbol? = none → Q vs →
      BeginsAs Q (.expr e) (t :: vs)
  | application {e : Expr} {t : Token} {vs : List Token} : e.isApplication = true →
      t.is .openParen = true → BeginsAs Q (.expr e) (t :: vs)
  | cond {e : Expr} {t : Token} {vs : List Token} : t.is .ifWord = true →
      BeginsAs Q (.expr e) (t :: vs)
  | varDecl {n : String} {value : Option Expr} {t : Token} {vs : List Token} :
      t.is .varWord = true → BeginsAs Q (.varDecl n value) (t :: vs)
  | ret {e : Expr} {t : Token} {vs : List Token} : t.is .returnWord = true →
      BeginsAs Q (.ret e) (t :: vs)

/-- A symbol, and what stands behind it. -/
theorem yields_one {s : Symbol} {front : List Char} (h : Reads front back (One s))
    (hBack : Yields back Q) : Yields (front ++ back) fun ts =>
      ∃ t vs, ts = t :: vs ∧ t.is s = true ∧ Q vs := by
  refine h.yields hBack ?_
  rintro _ ts ⟨t, rfl, hIs⟩ hTs
  exact ⟨t, ts, rfl, hIs, hTs⟩

/-- The first token of a text that begins with a symbol. -/
theorem yields_symbol {s : Symbol} (h : Reads s.spelling.toList back (One s)) :
    Yields (s.spelling.toList ++ back) fun ts => ∃ t vs, ts = t :: vs ∧ t.is s = true := by
  refine (yields_one h (Q := fun _ => True) fun _ => trivial).imp ?_
  rintro _ ⟨t, vs, rfl, hIs, -⟩
  exact ⟨t, vs, rfl, hIs⟩

theorem yields_keyword {s : Symbol} (hs : s.tokenClass = .keyword) :
    Yields (s.spelling.toList ++ (' ' :: back)) fun ts => ∃ t vs, ts = t :: vs ∧ t.is s = true :=
  yields_symbol (reads_keyword hs rfl)

theorem beginsAs_word {n : String} {e : Expr} {us vs : List Token} (h : Word n us) (hVs : Q vs) :
    BeginsAs Q (.expr e) (us ++ vs) := by
  obtain ⟨t, rfl, -, hClass⟩ := h
  refine .leaf (Token.symbol?_eq_none fun s hs => ?_) hVs
  rcases hClass with hClass | ⟨hClass, -⟩
  · exact s.tokenClass_ne.2.2.1 (hs.trans hClass)
  · exact s.tokenClass_ne.2.1 (hs.trans hClass)

theorem yields_expr_begins {e : Expr} (hSpelled : e.isSpelled = true) (hEnds : e.EndsBefore back)
    (hBack : Yields back Q) : Yields (e.text.toList ++ back) (BeginsAs Q (.expr e)) := by
  cases e with
  | int v =>
    refine (reads_int (of_decide_eq_true hSpelled) hEnds.apart).yields hBack ?_
    rintro _ vs ⟨t, rfl, hClass, -⟩ hVs
    exact .leaf (Token.symbol?_eq_none fun s hs => s.tokenClass_ne.1 (hs.trans hClass)) hVs
  | bool b => exact (reads_bool b hEnds.apart).yields hBack fun _ _ => beginsAs_word
  | name n =>
    exact (reads_name hSpelled hEnds.apart hEnds.notKeyword).yields hBack fun _ _ => beginsAs_word
  | unary op e =>
    rw [toList_unary, List.append_assoc]
    refine (yields_symbol (reads_bracket (Or.inr (by decide)))).imp ?_
    rintro _ ⟨t, vs, rfl, hIs⟩
    exact .application rfl hIs
  | binary op l r =>
    rw [toList_binary, List.append_assoc]
    refine (yields_symbol (reads_bracket (Or.inr (by decide)))).imp ?_
    rintro _ ⟨t, vs, rfl, hIs⟩
    exact .application rfl hIs
  | cond c body other =>
    obtain ⟨tail, hText⟩ := exists_toList_cond c body other
    rw [hText, List.append_assoc]
    refine (yields_keyword rfl).imp ?_
    rintro _ ⟨t, vs, rfl, hIs⟩
    exact .cond hIs

theorem yields_stmt {s : Stmt} (hSpelled : s.isSpelled = true) (hEnds : s.EndsBefore back)
    (hBack : Yields back Q) : Yields (s.text.toList ++ back) (BeginsAs Q s) := by
  cases s with
  | varDecl n value =>
    obtain ⟨tail, hText⟩ := exists_toList_varDecl n value
    rw [hText, List.append_assoc]
    refine (yields_keyword rfl).imp ?_
    rintro _ ⟨t, vs, rfl, hIs⟩
    exact .varDecl hIs
  | ret e =>
    rw [toList_ret, List.append_assoc, List.append_assoc]
    refine (yields_keyword rfl).imp ?_
    rintro _ ⟨t, vs, rfl, hIs⟩
    exact .ret hIs
  | block body => cases hSpelled
  | expr e =>
    rw [Stmt.text]
    exact yields_expr_begins hSpelled hEnds.expr hBack

/-- The text behind a statement of a block, up to the brace that closes the block and beyond it. -/
def behind : List Stmt → List Char → List Char
  | [], rest => Symbol.closeCurly.spelling.toList ++ rest
  | next :: others, rest => ' ' :: (next.text.toList ++ behind others rest)

theorem toList_bodyText_append (s : Stmt) (others : List Stmt) (rest : List Char) :
    (bodyText (s :: others)).toList ++ (Symbol.closeCurly.spelling.toList ++ rest) =
      s.text.toList ++ behind others rest := by
  induction others generalizing s with
  | nil => rw [bodyText, behind]
  | cons next others ih =>
    rw [toList_bodyText, List.append_assoc, List.append_assoc, ih, behind]
    rfl

/-- Where a keyword of this spelling is read in place of a name, another statement follows. -/
theorem endsBefore_or_keyword (s : Stmt) (others : List Stmt) (rest : List Char) :
    s.EndsBefore (behind others rest) ∨ ∃ k : Symbol, ∃ next more, k.tokenClass = .keyword ∧
      s = .expr (.name k.spelling) ∧ others = next :: more := by
  cases others with
  | nil => exact Or.inl ⟨apart_symbol (by decide), fun _ => rfl⟩
  | cons next more =>
    by_cases hKeyword : s.isKeyword = true
    · cases s with
      | expr e =>
        cases e with
        | name n =>
          obtain ⟨k, hk, rfl⟩ := spellsKeyword_iff.1 hKeyword
          exact Or.inr ⟨k, next, more, hk, rfl, rfl⟩
        | _ => cases hKeyword
      | _ => cases hKeyword
    · exact Or.inl ⟨apart_blank, fun h => absurd h hKeyword⟩

/-- A name that is read as a keyword, before the next statement. -/
theorem yields_keyword_stmt {k : Symbol} {next : Stmt} (hk : k.tokenClass = .keyword)
    (hSpelled : next.isSpelled = true) (hBack : Yields (next.text.toList ++ back) Q) :
    Yields (k.spelling.toList ++ (' ' :: (next.text.toList ++ back))) fun ts =>
      ∃ t vs, ts = t :: vs ∧ t.is k = true ∧ Q vs := by
  rw [List.append_cons]
  exact yields_one (reads_keyword_blank hk (Stmt.text_starts hSpelled).not_blank) hBack

/-- What stands behind a statement of a block does not go on with it. -/
theorem follows_behind (p : Setting) (hSpelled : bodyIsSpelled others = true) (rest : List Char) :
    Yields (behind others rest) (Follows p) := by
  cases others with
  | nil =>
    refine (yields_symbol (reads_bracket (Or.inr (by decide)))).imp ?_
    rintro _ ⟨t, vs, rfl, hIs⟩
    refine ⟨fun s hs => Or.inr (Or.inr (Token.is_unique hs hIs)), fun hElse => ?_⟩
    cases Token.is_unique hIs hElse
  | cons next more =>
    rw [bodyIsSpelled, Bool.and_eq_true] at hSpelled
    have hStarts := Stmt.text_starts hSpelled.1
    have hFirst := yields_starts hStarts (behind more rest)
    rw [behind]
    refine yields_blank hStarts.not_blank fun offset => ?_
    obtain ⟨t, tail, hTokens, -, hSymbol⟩ := hFirst offset
    have hElse : t.is .elseWord = true → ¬ (p.current tail).is .openCurly = true := by
      intro hElse
      rcases endsBefore_or_keyword next more rest with hEnds | ⟨k, next', more', hk, rfl, rfl⟩
      · have hBegins := yields_stmt hSpelled.1 hEnds (Q := fun _ => True) (fun _ => trivial) offset
        rw [hTokens] at hBegins
        cases hBegins with
        | leaf hNone _ => cases hNone.symm.trans (Token.is_iff.1 hElse)
        | application _ hIs | cond hIs | varDecl hIs | ret hIs => cases Token.is_unique hIs hElse
      · have hMore := hSpelled.2
        rw [bodyIsSpelled, Bool.and_eq_true] at hMore
        have hSecond := yields_starts (Stmt.text_starts hMore.1) (behind more' rest)
        obtain ⟨word, vs, hTokens', -, u, vs', rfl, -, hSymbol'⟩ :=
          yields_keyword_stmt hk hMore.1 hSecond offset
        have hTail : tail = u :: vs' := by
          rw [behind, Stmt.text, Expr.text] at hTokens
          exact (List.cons.inj (hTokens.symm.trans hTokens')).2
        rw [hTail]
        intro hCurly
        rcases hSymbol' _ hCurly with hClass | hParen
        · cases hClass
        · cases hParen
    rw [hTokens]
    exact ⟨fun s hs => (hSymbol s hs).imp_right Or.inl, hElse⟩

/-! ## Expressions without exposed names -/

/-- The tokens begin with an expression that is read as it stands, and go on with others. -/
def Reached (p : Setting) (Q : List Token → Prop) (ts : List Token) : Prop :=
  ∃ t us vs rule e, ts = t :: us ++ vs ∧ Opening t rule ∧ Settles p e (t :: us) vs .lowest ∧ Q vs

/-- An expression is read as it stands, unless it takes a name behind it for its `else`. -/
theorem yields_expr (hp : p.IsStandard) {e : Expr} (hSpelled : e.isSpelled = true)
    (hExposed : e.isExposed = false) (hEnds : e.EndsBefore back)
    (hFollows : Yields back (Follows p)) (hBack : Yields back Q) :
    Yields (e.text.toList ++ back) fun ts => OperandFails p ts ∨ Reached p Q ts := by
  intro offset
  have hFollows' := hFollows (offset + Text.byteLength e.text.toList)
  have hBack' := hBack (offset + Text.byteLength e.text.toList)
  by_cases hOpen : e.isDangling = true ∧ (p.current (Reading.default.tokensOf
      (offset + Text.byteLength e.text.toList) (Piece.scan back))).is .elseWord = true
  · left
    cases e with
    | cond c body other =>
      cases other with
      | none =>
        rw [Expr.isSpelled, Bool.and_eq_true] at hSpelled
        rw [Expr.isExposed, Bool.or_eq_false_iff] at hExposed
        have hCondition := (legible_expr c hSpelled.1 hExposed.1).2
        have hBody := legible_body body hSpelled.2 hExposed.2
        obtain ⟨ts, ⟨_, _, rfl, ⟨word, rfl, hWord⟩, enclosed, _, rfl, hEnclosed, _, tsBody, rfl,
          rfl, hBlock⟩, hTokens⟩ := @reads_front back _ _ hCondition hBody offset
        rw [hTokens]
        simp only [List.append_assoc, List.nil_append, List.cons_append]
        exact operandFails_else hp hWord hEnclosed hBlock hOpen.2 (hFollows'.elseWord hOpen.2)
      | some other => cases hOpen.1
    | _ => cases hOpen.1
  · right
    obtain ⟨us, ⟨e', hRenders, -, -⟩, hTokens⟩ :=
      (legible_expr e hSpelled hExposed).1 back hEnds offset
    have hFits : Fits p none e.isDangling .lowest (Reading.default.tokensOf
        (offset + Text.byteLength e.text.toList) (Piece.scan back)) :=
      fits_of_none fun hDangling hElse => hOpen ⟨hDangling, hElse⟩
    have hSettles := settles_of_renders hp hRenders hFits
    obtain ⟨t, tail, rule, rfl, hOpening⟩ := hRenders.exists_opening
    exact ⟨t, tail, _, rule, e', hTokens, hOpening, hSettles, hBack'⟩

/-! ## Names that are read as keywords -/

/-- The text of the expression is reported, whatever stands behind it. -/
def FailsToRead (p : Setting) (e : Expr) : Prop :=
  ∀ rest, Yields (e.text.toList ++ rest) (OperandFails p)

/-- The expressions among the statements are reported if they expose a name. -/
def ExposedFail (p : Setting) (body : List Stmt) : Prop :=
  ∀ e, Stmt.expr e ∈ body → e.isExposed = true → FailsToRead p e

theorem exprFails_keyword (hp : p.IsStandard) {k : Symbol} (hk : k.tokenClass = .keyword)
    {next : Stmt} (hSpelled : bodyIsSpelled (next :: others) = true)
    (hFail : ExposedFail p (next :: others)) (rest : List Char) :
    Yields (next.text.toList ++ behind others rest) fun ts =>
      ∀ t, t.is k = true → ExprFails p (t :: ts) := by
  by_cases hIf : k = .ifWord
  · subst hIf
    rw [bodyIsSpelled, Bool.and_eq_true] at hSpelled
    have hFollows := follows_behind p hSpelled.2 rest
    by_cases hApplication : ∃ e, next = .expr e ∧ e.isApplication = true
    · obtain ⟨e, rfl, hIs⟩ := hApplication
      rw [Stmt.text]
      by_cases hExposed : e.isExposed = true
      · refine (hFail e List.mem_cons_self hExposed _).imp fun ts h t hIf => ?_
        exact (operandFails_condition hIf (h.expr hp .lowest)).expr hp
      · -- The application is read as the condition, and no block follows it.
        have hCondition := (legible_expr e hSpelled.1 (Bool.eq_false_iff.2 hExposed)).2
          (behind others rest)
        rw [conditionText_of_isApplication hIs] at hCondition
        refine hCondition.yields hFollows fun us vs hEnclosed hVs t hIf => ?_
        exact (operandFails_unbraced hp hIf hEnclosed (hVs.not_lt hp _)
          (hVs.not_is (by decide) (by decide) (by decide))).expr hp
    · have hNot : Yields (next.text.toList ++ behind others rest) fun ts =>
          ¬ (p.current ts).is .openParen = true := by
        rcases endsBefore_or_keyword next others rest with hEnds | ⟨k, _, _, hk, rfl, rfl⟩
        · refine (yields_stmt hSpelled.1 hEnds (Q := fun _ => True) fun _ => trivial).imp ?_
          rintro ts hBegins hOpen
          cases hBegins with
          | leaf hNone _ => cases hNone.symm.trans (Token.is_iff.1 hOpen)
          | application hIs _ => exact hApplication ⟨_, rfl, hIs⟩
          | cond hIs | varDecl hIs | ret hIs => cases Token.is_unique hOpen hIs
        · refine (yields_keyword hk).imp ?_
          rintro _ ⟨u, vs, rfl, hIs⟩ hOpen
          cases Token.is_unique hOpen hIs
          cases hk
      exact hNot.imp fun ts hNot t hIf => (operandFails_unopened hIf hNot).expr hp
  · intro _ t hIs
    refine exprFails_of_noOperand hp fun rule hOpening => hOpening.not_is ?_ hIs
    revert hk hIf
    cases k <;> decide

theorem stmtFails_var (hp : p.IsStandard) {next : Stmt}
    (hSpelled : bodyIsSpelled (next :: others) = true) (rest : List Char) :
    Yields (next.text.toList ++ behind others rest) fun ts =>
      ∀ t, t.is .varWord = true → StmtFails p (t :: ts) := by
  rw [bodyIsSpelled, Bool.and_eq_true] at hSpelled
  have hUnnamed : ∀ {u : Token} {vs : List Token} {s : Symbol}, u.is s = true →
      ∀ t, t.is .varWord = true → StmtFails p (t :: u :: vs) := by
    intro u vs s hIs t hVar
    refine stmtFails_unnamed hp hVar fun hClass => ?_
    exact s.tokenClass_ne.2.2.1 ((Token.tokenClass_of_is hIs).symm.trans hClass)
  rcases endsBefore_or_keyword next others rest with hEnds | ⟨k, _, _, hk, rfl, rfl⟩
  · refine (yields_stmt hSpelled.1 hEnds (follows_behind p hSpelled.2 rest)).imp
      fun ts hBegins => ?_
    cases hBegins with
    | leaf _ hVs =>
      intro t hVar
      exact stmtFails_unassigned hp hVar (hVs.not_is (by decide) (by decide) (by decide))
        (hVs.not_is (by decide) (by decide) (by decide))
    | application _ hIs | cond hIs | varDecl hIs | ret hIs => exact hUnnamed hIs
  · refine (yields_keyword hk).imp ?_
    rintro _ ⟨u, vs, rfl, hIs⟩
    exact hUnnamed hIs

theorem stmtFails_return (hp : p.IsStandard) {next : Stmt}
    (hSpelled : bodyIsSpelled (next :: others) = true) (hFail : ExposedFail p (next :: others))
    (rest : List Char) :
    Yields (next.text.toList ++ behind others rest) fun ts =>
      ∀ t, t.is .returnWord = true → StmtFails p (t :: ts) := by
  have hParts := hSpelled
  rw [bodyIsSpelled, Bool.and_eq_true] at hParts
  rcases endsBefore_or_keyword next others rest with hEnds | ⟨k, next', more, hk, rfl, rfl⟩
  · have hFollows := follows_behind p hParts.2 rest
    by_cases hValue : ∃ e, next = .expr e
    · obtain ⟨e, rfl⟩ := hValue
      rw [Stmt.text]
      by_cases hExposed : e.isExposed = true
      · refine (hFail e List.mem_cons_self hExposed _).imp fun ts h t hReturn => ?_
        exact stmtFails_ret hp hReturn (h.expr hp)
      · have hExpr := yields_expr hp hParts.1 (Bool.eq_false_iff.2 hExposed) hEnds.expr hFollows
          hFollows
        refine hExpr.imp fun ts h t hReturn => ?_
        rcases h with hFails | ⟨u, us, vs, rule, e', rfl, -, hSettles, hVs⟩
        · exact stmtFails_ret hp hReturn (hFails.expr hp)
        · exact stmtFails_unended hp hReturn (Nat.succ_pos _) (hSettles.reads (hVs.not_lt hp _))
            (hVs.not_is (by decide) (by decide) (by decide))
    · refine (yields_stmt hParts.1 hEnds hFollows).imp fun ts hBegins t hReturn => ?_
      cases hBegins with
      | leaf | application | cond => exact absurd ⟨_, rfl⟩ hValue
      | varDecl hIs | ret hIs =>
        exact stmtFails_ret hp hReturn (exprFails_of_noOperand hp fun _ hOpening =>
          hOpening.not_is (by decide) hIs)
  · have hMore := hParts.2
    have hFailMore : ExposedFail p (next' :: more) :=
      fun e hMem => hFail e (List.mem_cons_of_mem _ hMem)
    have hBehind := exprFails_keyword hp hk hMore hFailMore rest
    rw [bodyIsSpelled, Bool.and_eq_true] at hMore
    refine (yields_keyword_stmt hk hMore.1 hBehind).imp ?_
    rintro _ ⟨u, vs, rfl, hIs, hFails⟩ t hReturn
    exact stmtFails_ret hp hReturn (hFails u hIs)

/-- A name that is read as a keyword is no statement together with what follows it. -/
theorem stmtFails_keyword (hp : p.IsStandard) {k : Symbol} (hk : k.tokenClass = .keyword)
    {next : Stmt} (hSpelled : bodyIsSpelled (next :: others) = true)
    (hFail : ExposedFail p (next :: others)) (rest : List Char) :
    Yields (next.text.toList ++ behind others rest) fun ts =>
      ∀ t, t.is k = true → StmtFails p (t :: ts) := by
  by_cases hVar : k = .varWord
  · subst hVar
    exact stmtFails_var hp hSpelled rest
  · by_cases hReturn : k = .returnWord
    · subst hReturn
      exact stmtFails_return hp hSpelled hFail rest
    · refine (exprFails_keyword hp hk hSpelled hFail rest).imp fun ts h t hIs => ?_
      refine (h t hIs).stmt hp (fun hIs' => ?_) (fun hIs' => ?_)
      · exact hVar (Token.is_unique hIs hIs')
      · exact hReturn (Token.is_unique hIs hIs')

/-! ## Expressions with exposed names -/

theorem failsToRead_unary (hp : p.IsStandard) {op : UnaryOp} {e : Expr}
    (hStarts : Starts e.text.toList) (h : FailsToRead p e) : FailsToRead p (.unary op e) := by
  intro rest
  rw [toList_unary]
  simp only [List.append_assoc]
  have hOperand := yields_one (reads_operator (Or.inl op.tokenClass_symbol) hStarts.not_mark)
    (h (Symbol.closeParen.spelling.toList ++ rest))
  refine (yields_one (reads_bracket (Or.inr (by decide))) hOperand).imp ?_
  rintro _ ⟨opening, _, rfl, hOpening, t, ts, rfl, hIs, hFails⟩
  exact operandFails_group hOpening ((operandFails_unary hIs (hFails.expr hp)).expr hp .lowest)

theorem failsToRead_left (hp : p.IsStandard) {op : BinaryOp} {l r : Expr}
    (h : FailsToRead p l) : FailsToRead p (.binary op l r) := by
  intro rest
  rw [toList_binary]
  simp only [List.append_assoc]
  refine (yields_one (reads_bracket (Or.inr (by decide))) (h _)).imp ?_
  rintro _ ⟨opening, _, rfl, hOpening, hFails⟩
  exact operandFails_group hOpening (hFails.expr hp .lowest)

theorem failsToRead_right (hp : p.IsStandard) {op : BinaryOp} {l r : Expr} (hLeft : l.Legible)
    (hStarts : Starts r.text.toList) (h : FailsToRead p r) : FailsToRead p (.binary op l r) := by
  intro rest
  rw [toList_binary]
  simp only [List.append_assoc]
  have hRight := yields_one (reads_operator (Or.inl op.tokenClass_symbol) hStarts.not_mark)
    (h (Symbol.closeParen.spelling.toList ++ rest))
  have hEnds : l.EndsBefore (op.symbol.spelling.toList ++ (r.text.toList ++
      (Symbol.closeParen.spelling.toList ++ rest))) :=
    l.endsBefore_symbol (by simp [op.tokenClass_symbol]) (by cases op <;> decide)
  have hInner : Yields (l.text.toList ++ (op.symbol.spelling.toList ++ (r.text.toList ++
      (Symbol.closeParen.spelling.toList ++ rest)))) fun ts =>
        (expression p ts .lowest).errors ≠ [] := by
    refine (hLeft _ hEnds).yields hRight ?_
    rintro us _ ⟨l', hRenders, -⟩ ⟨t, ts, rfl, hIs, hFails⟩
    exact errors_right hp hRenders hIs (hFails.expr hp)
  refine (yields_one (reads_bracket (Or.inr (by decide))) hInner).imp ?_
  rintro _ ⟨opening, _, rfl, hOpening, hFails⟩
  exact operandFails_group hOpening hFails

theorem yields_condition (hp : p.IsStandard) {c : Expr} (h : FailsToRead p c) :
    Yields ((conditionText c).toList ++ back) (OperandFails p) := by
  by_cases hIs : c.isApplication = true
  · rw [conditionText_of_isApplication hIs]
    exact h back
  · rw [toList_conditionText (Bool.eq_false_iff.2 hIs)]
    simp only [List.append_assoc]
    refine (yields_one (reads_bracket (Or.inr (by decide))) (h _)).imp ?_
    rintro _ ⟨opening, _, rfl, hOpening, hFails⟩
    exact operandFails_group hOpening (hFails.expr hp .lowest)

theorem failsToRead_condition (hp : p.IsStandard) {c : Expr} {body : List Stmt}
    (h : FailsToRead p c) : FailsToRead p (.cond c body none) := by
  intro rest
  obtain ⟨tail, hTail⟩ := exists_conditionText c
  rw [toList_cond, List.append_assoc, List.append_assoc (conditionText c).toList]
  refine (yields_one (reads_keyword_blank rfl ?_) (yields_condition hp h)).imp ?_
  · rw [hTail]
    rintro _ ⟨⟩
    decide
  · rintro _ ⟨word, ts, rfl, hWord, hFails⟩
    exact operandFails_condition hWord (hFails.expr hp .lowest)

/-- The text of the block is reported, whatever stands behind it. -/
def BodyFailsToRead (p : Setting) (body : List Stmt) : Prop :=
  ∀ rest, Yields ((bodyText body).toList ++ (Symbol.closeCurly.spelling.toList ++ rest))
    (BodyFails p)

theorem yields_braced {body : List Stmt} (h : BodyFailsToRead p body) (back : List Char) :
    Yields ((braced (bodyText body)).toList ++ back) fun ts =>
      ∃ t vs, ts = t :: vs ∧ t.is .openCurly = true ∧ BodyFails p vs := by
  rw [toList_braced]
  simp only [List.append_assoc]
  exact yields_one (reads_bracket (Or.inr (by decide))) (h back)

theorem failsToRead_body (hp : p.IsStandard) {c : Expr} {body : List Stmt}
    (hCondition : c.LegibleCondition) (h : BodyFailsToRead p body) :
    FailsToRead p (.cond c body none) := by
  intro rest
  obtain ⟨tail, hTail⟩ := exists_conditionText c
  rw [toList_cond]
  simp only [List.append_assoc (conditionText c).toList, List.append_assoc (_ ++ [' ']),
    List.append_assoc [' ']]
  have hBraced := yields_braced h rest
  have hBlock := (hCondition _).yields (yields_blank (starts_braced _ _) hBraced)
    (R := fun ts => ∃ us t vs, ts = us ++ t :: vs ∧ RendersEnclosed c us ∧
      t.is .openCurly = true ∧ BodyFails p vs) ?_
  · refine (yields_one (reads_keyword_blank rfl ?_) hBlock).imp ?_
    · rw [hTail]
      rintro _ ⟨⟩
      decide
    · rintro _ ⟨word, _, rfl, hWord, us, curly, vs, rfl, hEnclosed, hCurly, hFails⟩
      exact operandFails_body hp hWord hEnclosed hCurly hFails
  · rintro us _ hEnclosed ⟨t, vs, rfl, hCurly, hFails⟩
    exact ⟨us, t, vs, rfl, hEnclosed, hCurly, hFails⟩

theorem FailsToRead.condElse {c : Expr} {body other : List Stmt}
    (h : FailsToRead p (.cond c body none)) : FailsToRead p (.cond c body (some other)) := by
  intro rest
  rw [toList_condElse, List.append_assoc]
  exact h _

theorem failsToRead_other (hp : p.IsStandard) {c : Expr} {body other : List Stmt}
    (hCondition : c.LegibleCondition) (hBody : LegibleBody body) (h : BodyFailsToRead p other) :
    FailsToRead p (.cond c body (some other)) := by
  intro rest
  have hElse : Yields ((Symbol.elseWord.spelling.toList ++ [' ']) ++
      ((braced (bodyText other)).toList ++ rest)) fun ts => ∃ word curly vs,
        ts = word :: curly :: vs ∧ word.is .elseWord = true ∧ curly.is .openCurly = true ∧
          BodyFails p vs := by
    refine (yields_one (reads_keyword_blank rfl (starts_braced _ _)) (yields_braced h rest)).imp ?_
    rintro _ ⟨word, _, rfl, hWord, curly, vs, rfl, hCurly, hFails⟩
    exact ⟨word, curly, vs, rfl, hWord, hCurly, hFails⟩
  have hBlank : ∀ d ∈ ((Symbol.elseWord.spelling.toList ++ [' ']) ++
      ((braced (bodyText other)).toList ++ rest)).head?, Text.isBlank d = false := by
    rintro _ ⟨⟩
    decide
  rw [toList_condElse]
  simp only [List.append_assoc (Expr.text _).toList, List.append_assoc (_ ++ [' ']),
    List.append_assoc [' ']]
  refine (reads_front hCondition hBody).yields (yields_blank hBlank hElse) ?_
  rintro _ _ ⟨_, _, rfl, ⟨t, rfl, hIs⟩, us, _, rfl, hEnclosed, _, tsBody, rfl, rfl, hBlock⟩
    ⟨word, curly, vs, rfl, hWord, hCurly, hFails⟩
  simp only [List.append_assoc, List.nil_append, List.cons_append]
  exact operandFails_other hp hIs hEnclosed hBlock hWord hCurly hFails

/-! ## Statements with exposed names -/

/-- A variable whose name is not read as a name. -/
theorem yields_unnamed (hp : p.IsStandard) {text : List Char}
    (hBlank : ∀ c ∈ text.head?, Text.isBlank c = false)
    (h : Yields text fun ts => (p.current ts).tokenClass ≠ .identifier) :
    Yields ((Symbol.varWord.spelling.toList ++ [' ']) ++ text) (StmtFails p) := by
  refine (yields_one (reads_keyword_blank rfl hBlank) h).imp ?_
  rintro _ ⟨word, ts, rfl, hWord, hClass⟩
  exact stmtFails_unnamed hp hWord hClass

theorem yields_variable (hp : p.IsStandard) {n : String} (hWord : isWord n = true)
    (h : (spellsTruth n = true ∧ endsTruth back = true) ∨
      (spellsKeyword n = true ∧ endsKeyword back = true)) :
    Yields ((Symbol.varWord.spelling.toList ++ [' ']) ++ (n.toList ++ back)) (StmtFails p) := by
  have hStarts : Starts n.toList := starts_of_word (isWord_iff.1 hWord).1 (isWord_iff.1 hWord).2.1
  refine yields_unnamed hp hStarts.not_blank ?_
  rcases h with ⟨hTruth, hEnds⟩ | ⟨hKeyword, hEnds⟩
  · obtain ⟨b, rfl⟩ := spellsTruth_iff.1 hTruth
    refine (reads_truth hEnds).yields (Q := fun _ => True) (fun _ => trivial) ?_
    rintro _ ts ⟨t, rfl, hClass⟩ - hName
    cases hClass.symm.trans hName
  · obtain ⟨k, hk, rfl⟩ := spellsKeyword_iff.1 hKeyword
    refine (yields_symbol (reads_keyword hk hEnds)).imp ?_
    rintro _ ⟨t, ts, rfl, hIs⟩ hName
    exact k.tokenClass_ne.2.2.1 ((Token.tokenClass_of_is hIs).symm.trans hName)

/-- A variable with a value that is reported. -/
theorem yields_assigned (hp : p.IsStandard) {n : String} {e : Expr} (hWord : isWord n = true)
    (hTruth : spellsTruth n = false) (hKeyword : spellsKeyword n = false)
    (hStarts : Starts e.text.toList) (h : FailsToRead p e) (rest : List Char) :
    Yields ((Stmt.varDecl n (some e)).text.toList ++ rest) (StmtFails p) := by
  have hName : Starts n.toList := starts_of_word (isWord_iff.1 hWord).1 (isWord_iff.1 hWord).2.1
  have hValue := h (Symbol.semicolon.spelling.toList ++ rest)
  have hSign := yields_one (reads_operator (Or.inr rfl) ?_)
    (yields_blank hStarts.not_blank hValue) (s := .assignment)
  · have hVariable := (reads_variable hWord hTruth apart_blank (by simp [hKeyword])).yields
      (yields_blank ?_ hSign) (R := fun ts => ∃ name sign vs, ts = name :: sign :: vs ∧
        name.tokenClass = .identifier ∧ sign.is .assignment = true ∧ OperandFails p vs) ?_
    · rw [toList_varDecl]
      simp only [List.append_assoc (_ ++ [' ']), List.append_assoc n.toList,
        List.append_assoc [' '], List.append_assoc Symbol.assignment.spelling.toList,
        List.append_assoc e.text.toList]
      refine (yields_one (reads_keyword_blank rfl hName.not_blank) hVariable).imp ?_
      rintro _ ⟨word, _, rfl, hIs, name, sign, vs, rfl, hClass, hSign, hFails⟩
      exact stmtFails_assigned hp hIs hClass hSign (hFails.expr hp)
    · rintro _ ⟨⟩
      decide
    · rintro _ _ ⟨name, rfl, hClass, -⟩ ⟨sign, vs, rfl, hSign, hFails⟩
      exact ⟨name, sign, vs, rfl, hClass, hSign, hFails⟩
  · rintro _ ⟨⟩
    decide

theorem yields_ret (hp : p.IsStandard) {e : Expr} (hStarts : Starts e.text.toList)
    (h : FailsToRead p e) (rest : List Char) :
    Yields ((Stmt.ret e).text.toList ++ rest) (StmtFails p) := by
  rw [toList_ret, List.append_assoc, List.append_assoc e.text.toList]
  refine (yields_one (reads_keyword_blank rfl hStarts.not_blank) (h _)).imp ?_
  rintro _ ⟨word, ts, rfl, hWord, hFails⟩
  exact stmtFails_ret hp hWord (hFails.expr hp)

/-- The first statement of a block is reported. -/
theorem yields_first_stmt {s : Stmt} (hStarts : Starts s.text.toList)
    (h : Yields (s.text.toList ++ back) (StmtFails p)) :
    Yields (s.text.toList ++ back) (BodyFails p) := by
  intro offset
  obtain ⟨t, tail, hTokens, hEnd, hSymbol⟩ := yields_starts hStarts back offset
  have hFails := h offset
  rw [hTokens] at hFails ⊢
  refine statements_fails (fun hEnds => ?_) hFails
  rcases hEnds t rfl with hIsEnd | ⟨-, hClose⟩
  · rw [hEnd] at hIsEnd
    cases hIsEnd
  · rcases hSymbol _ hClose with hClass | hParen
    · cases hClass
    · cases hParen

theorem not_ends_of_begins {inBlock : Bool} (h : Begins t) : ¬ Ends inBlock (t :: ts) := by
  intro hEnds
  rcases hEnds t rfl with hEnd | ⟨-, hClose⟩
  · exact h.not_isEnd hEnd
  · exact h.not_is (by decide) hClose

/-- The first statement of a block is read, and what follows it is reported. -/
theorem yields_rest (hp : p.IsStandard) {s : Stmt} (hSpelled : s.isSpelled = true)
    (hExposed : s.isExposed = false) (hEnds : s.EndsBefore back)
    (hFollows : Yields back (Follows p)) (hBack : Yields back (BodyFails p)) :
    Yields (s.text.toList ++ back) (BodyFails p) := by
  have hEnded : s.isEnded = true → Yields (s.text.toList ++ back) (BodyFails p) := by
    intro hIs
    refine (reads_stmt s hSpelled hExposed hEnds).yields hBack ?_
    rintro us vs ⟨s', hRenders, -⟩ hFails
    rw [hIs] at hRenders
    have hOne : statement p (us ++ vs) = ⟨some s', us.length - 1, []⟩ :=
      statement_of_renders hp hRenders nofun
    obtain ⟨t, tail, rfl, hBegins⟩ := hRenders.exists_begins
    exact bodyFails_of_rest (not_ends_of_begins hBegins) hOne hFails
  cases s with
  | expr e =>
    rw [Stmt.text]
    have hBoth : Yields back fun vs => Follows p vs ∧ BodyFails p vs :=
      fun offset => ⟨hFollows offset, hBack offset⟩
    refine (yields_expr hp hSpelled hExposed hEnds.expr hFollows hBoth).imp fun ts h => ?_
    rcases h with hFails | ⟨t, us, vs, rule, e', rfl, hOpening, hSettles, hVs, hFails⟩
    · have hStmt := hFails.stmt hp
      obtain ⟨t, tail, rule, rfl, hOpening, -⟩ := hFails
      exact statements_fails (not_ends_of_begins (.inl ⟨rule, hOpening⟩)) hStmt
    · have hOne := statement_reads_expr hp hOpening hSettles (hVs.not_lt hp _)
      rw [if_neg (hVs.not_is (by decide) (by decide) (by decide))] at hOne
      exact bodyFails_of_rest (not_ends_of_begins (.inl ⟨rule, hOpening⟩)) hOne hFails
  | varDecl n value => exact hEnded rfl
  | ret e => exact hEnded rfl
  | block body => cases hSpelled

/-! ## The induction -/

mutual

theorem failsToRead_of_exposed (hp : p.IsStandard) (e : Expr) (hSpelled : e.isSpelled = true)
    (hExposed : e.isExposed = true) : FailsToRead p e := by
  match e with
  | .int _ | .bool _ | .name _ => cases hExposed
  | .unary op e =>
    exact failsToRead_unary hp (Expr.text_starts hSpelled)
      (failsToRead_of_exposed hp e hSpelled hExposed)
  | .binary op l r =>
    rw [Expr.isSpelled, Bool.and_eq_true] at hSpelled
    rw [Expr.isExposed, Bool.or_eq_true] at hExposed
    by_cases hLeft : l.isExposed = true
    · exact failsToRead_left hp (failsToRead_of_exposed hp l hSpelled.1 hLeft)
    · have hLegible := (legible_expr l hSpelled.1 (Bool.eq_false_iff.2 hLeft)).1
      exact failsToRead_right hp hLegible (Expr.text_starts hSpelled.2)
        (failsToRead_of_exposed hp r hSpelled.2 (hExposed.resolve_left hLeft))
  | .cond c body none =>
    rw [Expr.isSpelled, Bool.and_eq_true] at hSpelled
    rw [Expr.isExposed, Bool.or_eq_true] at hExposed
    by_cases hCondition : c.isExposed = true
    · exact failsToRead_condition hp (failsToRead_of_exposed hp c hSpelled.1 hCondition)
    · have hLegible := (legible_expr c hSpelled.1 (Bool.eq_false_iff.2 hCondition)).2
      exact failsToRead_body hp hLegible
        (bodyFails_of_exposed hp body hSpelled.2 (hExposed.resolve_left hCondition))
  | .cond c body (some other) =>
    simp only [Expr.isSpelled, Bool.and_eq_true] at hSpelled
    simp only [Expr.isExposed, Bool.or_eq_true] at hExposed
    by_cases hCondition : c.isExposed = true
    · exact (failsToRead_condition hp
        (failsToRead_of_exposed hp c hSpelled.1.1 hCondition)).condElse
    · have hLegible := (legible_expr c hSpelled.1.1 (Bool.eq_false_iff.2 hCondition)).2
      by_cases hBody : bodyIsExposed body = true
      · exact (failsToRead_body hp hLegible
          (bodyFails_of_exposed hp body hSpelled.1.2 hBody)).condElse
      · have hOther : bodyIsExposed other = true :=
          hExposed.resolve_left fun h => h.elim hCondition hBody
        exact failsToRead_other hp hLegible
          (legible_body body hSpelled.1.2 (Bool.eq_false_iff.2 hBody))
          (bodyFails_of_exposed hp other hSpelled.2 hOther)

theorem exposedFail (hp : p.IsStandard) (body : List Stmt) (hSpelled : bodyIsSpelled body = true) :
    ExposedFail p body := by
  intro e hMem hExposed
  match body with
  | [] => cases hMem
  | s :: others =>
    rw [bodyIsSpelled, Bool.and_eq_true] at hSpelled
    rcases List.mem_cons.1 hMem with hHere | hThere
    · subst hHere
      exact failsToRead_of_exposed hp e hSpelled.1 hExposed
    · exact exposedFail hp others hSpelled.2 e hThere hExposed

theorem stmtFails_of_exposed (hp : p.IsStandard) (s : Stmt) (hSpelled : s.isSpelled = true)
    (hExposed : s.isExposed = true) (rest : List Char) :
    Yields (s.text.toList ++ rest) (StmtFails p) := by
  match s with
  | .varDecl n none =>
    rw [toList_declaration, List.append_assoc, List.append_assoc n.toList]
    refine yields_variable hp hSpelled ?_
    exact Or.inl ⟨hExposed, rfl⟩
  | .varDecl n (some e) =>
    rw [Stmt.isSpelled, Bool.and_eq_true] at hSpelled
    simp only [Stmt.isExposed, Bool.or_eq_true] at hExposed
    by_cases hName : spellsTruth n = true ∨ spellsKeyword n = true
    · rw [toList_varDecl, List.append_assoc, List.append_assoc n.toList]
      refine yields_variable hp hSpelled.1 ?_
      exact hName.imp (fun h => ⟨h, rfl⟩) (fun h => ⟨h, rfl⟩)
    · have hValue := failsToRead_of_exposed hp e hSpelled.2 (hExposed.resolve_left hName)
      rw [not_or, Bool.not_eq_true, Bool.not_eq_true] at hName
      exact yields_assigned hp hSpelled.1 hName.1 hName.2 (Expr.text_starts hSpelled.2) hValue rest
  | .ret e =>
    exact yields_ret hp (Expr.text_starts hSpelled) (failsToRead_of_exposed hp e hSpelled hExposed)
      rest
  | .expr e =>
    rw [Stmt.text]
    exact (failsToRead_of_exposed hp e hSpelled hExposed rest).imp fun _ h => h.stmt hp
  | .block _ => cases hSpelled

theorem bodyFails_of_exposed (hp : p.IsStandard) (body : List Stmt)
    (hSpelled : bodyIsSpelled body = true) (hExposed : bodyIsExposed body = true) :
    BodyFailsToRead p body := by
  intro rest
  match body with
  | [] => cases hExposed
  | [s] =>
    rw [bodyIsSpelled, Bool.and_eq_true] at hSpelled
    rw [bodyText]
    exact yields_first_stmt (Stmt.text_starts hSpelled.1)
      (stmtFails_of_exposed hp s hSpelled.1 hExposed _)
  | s :: next :: others =>
    rw [bodyIsSpelled, Bool.and_eq_true] at hSpelled
    have hNext := hSpelled.2
    rw [bodyIsSpelled, Bool.and_eq_true] at hNext
    simp only [bodyIsExposed, Bool.or_eq_true] at hExposed
    have hStarts := Stmt.text_starts hSpelled.1
    rw [toList_bodyText_append]
    by_cases hFirst : s.isExposed = true
    · exact yields_first_stmt hStarts (stmtFails_of_exposed hp s hSpelled.1 hFirst _)
    · rcases endsBefore_or_keyword s (next :: others) rest with hEnds | ⟨k, _, _, hk, rfl, ⟨⟩⟩
      · have hNot : ¬ s.isKeyword = true := fun h => nomatch hEnds.notKeyword h
        have hRest := hExposed.resolve_left fun h => h.elim hFirst hNot
        have hBack := bodyFails_of_exposed hp (next :: others) hSpelled.2 hRest rest
        rw [toList_bodyText_append] at hBack
        exact yields_rest hp hSpelled.1 (Bool.eq_false_iff.2 hFirst) hEnds
          (follows_behind p hSpelled.2 rest)
          (yields_blank (Stmt.text_starts hNext.1).not_blank hBack)
      · refine yields_first_stmt hStarts ?_
        have hFail := exposedFail hp (next :: others) hSpelled.2
        refine (yields_keyword_stmt hk hNext.1
          (stmtFails_keyword hp hk hSpelled.2 hFail rest)).imp ?_
        rintro _ ⟨t, vs, rfl, hIs, hFails⟩
        exact hFails t hIs

end

end Frontend.Parse
