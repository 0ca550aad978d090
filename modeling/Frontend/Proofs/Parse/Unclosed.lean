import Frontend.Proofs.Parse.Likeness

/-!
# Blocks that the end of the input closes

A block ends before a closing brace and before the end of the input alike, and all that looks at the
token behind a block tells neither of them from the other. So a parse without reports goes on in the
same way if the end of the input stands where a closing brace stood. The places move equally far in
both parses; where one stands on a brace, the other stands on the mark of the end or behind the list.

* `Token.GivesWayTo`: what may stand in the place of a token.
* `yielding_respected`: each way to a result without reports is taken on the other list too.
* `parse_of_fewer_braces`: closing braces right before the end of the input may be left out.
-/

namespace Frontend

/-- What may stand in the place of a token: the token itself and, for a closing brace, any closing
brace and the end of the input. -/
def Token.GivesWayTo (t t' : Token) : Prop :=
  t' = t ∨ t.is .closeCurly = true ∧ (t'.is .closeCurly = true ∨ t'.isEnd = true)

namespace Token.GivesWayTo

variable {t t' : Token}

theorem eq_of_not_close (h : t.GivesWayTo t') (hClose : ¬ t.is .closeCurly = true) : t' = t := by
  rcases h with hEq | ⟨hIs, -⟩
  · exact hEq
  · exact absurd hIs hClose

/-- Every other symbol is seen in both places or in neither. -/
theorem is_iff (h : t.GivesWayTo t') {s : Symbol} (hs : s ≠ .closeCurly) :
    t'.is s = true ↔ t.is s = true := by
  rcases h with rfl | ⟨hClose, hOther⟩
  · exact Iff.rfl
  · constructor
    · intro hIs
      rcases hOther with hClose' | hEnd
      · exact absurd (Token.is_unique hIs hClose') hs
      · exact absurd hIs (Token.not_is_of_isEnd hEnd s)
    · intro hIs
      exact absurd (Token.is_unique hIs hClose) hs

theorem eq_of_is (h : t.GivesWayTo t') {s : Symbol} (hIs : t.is s = true) (hs : s ≠ .closeCurly) :
    t' = t :=
  h.eq_of_not_close fun hClose => hs (Token.is_unique hIs hClose)

theorem eq_of_opening (h : t.GivesWayTo t') {rule : OperandRule} (hOpening : Opening t rule) :
    t' = t :=
  h.eq_of_not_close (hOpening.not_is (by decide))

theorem eq_of_isEnd (h : t.GivesWayTo t') (hEnd : t.isEnd = true) : t' = t :=
  h.eq_of_not_close (Token.not_is_of_isEnd hEnd _)

theorem power_eq (h : t.GivesWayTo t') : Grammar.standard.power t' = Grammar.standard.power t := by
  by_cases hOp : ∃ op : BinaryOp, t.is op.symbol = true
  · obtain ⟨op, hIs⟩ := hOp
    rw [h.eq_of_is hIs (by cases op <;> decide)]
  · have hNone : ∀ op : BinaryOp, ¬ t.is op.symbol = true := fun op hIs => hOp ⟨op, hIs⟩
    have hNone' : ∀ op : BinaryOp, ¬ t'.is op.symbol = true := by
      intro op
      rw [h.is_iff (by cases op <;> decide)]
      exact hNone op
    rw [power_of_not_operator hNone, power_of_not_operator hNone']

end Token.GivesWayTo

namespace Parse

/-- What is seen on the second list may stand, at each place, for what is seen on the first. -/
def GiveWay (p q : Setting) (ts ts' : List Token) : Prop :=
  ∀ i, (p.current (ts.drop i)).GivesWayTo (q.current (ts'.drop i))

variable {p q : Setting} {t : Token} {ts ts' rest : List Token}

namespace GiveWay

theorem current (h : GiveWay p q ts ts') : (p.current ts).GivesWayTo (q.current ts') :=
  h 0

theorem next (h : GiveWay p q ts ts') : (p.next ts).GivesWayTo (q.next ts') :=
  h 1

theorem drop (h : GiveWay p q ts ts') (k : Nat) : GiveWay p q (ts.drop k) (ts'.drop k) := by
  intro i
  rw [List.drop_drop, List.drop_drop]
  exact h (k + i)

/-- A token that is no closing brace stands on the other list too, if it is not the end. -/
theorem cons (hq : q.IsStandard) (h : GiveWay p q (t :: rest) ts') (hEnd : ¬ t.isEnd = true)
    (hClose : ¬ t.is .closeCurly = true) : ∃ rest', ts' = t :: rest' ∧ GiveWay p q rest rest' := by
  have hSame : q.current ts' = t := h.current.eq_of_not_close hClose
  cases ts' with
  | nil =>
    rw [← hSame] at hEnd
    exact absurd hq.endMark hEnd
  | cons t' rest' =>
    rw [Setting.current_cons] at hSame
    exact ⟨rest', by rw [hSame], h.drop 1⟩

theorem cons_of_is (hq : q.IsStandard) (h : GiveWay p q (t :: rest) ts') {s : Symbol}
    (hIs : t.is s = true) (hs : s ≠ .closeCurly) :
    ∃ rest', ts' = t :: rest' ∧ GiveWay p q rest rest' :=
  h.cons hq (Token.not_isEnd_of_is hIs) fun hClose => hs (Token.is_unique hIs hClose)

theorem cons_of_tokenClass (hq : q.IsStandard) (h : GiveWay p q (t :: rest) ts') {k : TokenClass}
    (hClass : t.tokenClass = k) (hNone : ∀ s : Symbol, s.tokenClass ≠ k)
    (hEnd : k ≠ .endOfInput) : ∃ rest', ts' = t :: rest' ∧ GiveWay p q rest rest' := by
  refine h.cons hq ?_ (Token.not_is_of_tokenClass hClass hNone _)
  rw [Token.isEnd, hClass]
  simpa using hEnd

/-- In front of a symbol both lists have a first token, and behind it they are the same. -/
theorem cons_cons_of_is (hq : q.IsStandard) {head : Token}
    (h : GiveWay p q (head :: t :: rest) ts') {s : Symbol} (hIs : t.is s = true)
    (hs : s ≠ .closeCurly) : ∃ head' rest', ts' = head' :: t :: rest' ∧ GiveWay p q rest rest' := by
  obtain ⟨rest', hDrop, hRest⟩ := (h.drop 1).cons_of_is hq hIs hs
  cases ts' with
  | nil => cases hDrop
  | cons head' tail' =>
    rw [List.drop_succ_cons, List.drop_zero] at hDrop
    exact ⟨head', rest', by rw [hDrop], hRest⟩

theorem ends (hp : p.IsStandard) (hq : q.IsStandard) (h : GiveWay p q ts ts') {inBlock : Bool}
    (hEnds : Ends inBlock ts) : Ends inBlock ts' := by
  rw [Likeness.ends_iff hp] at hEnds
  rw [Likeness.ends_iff hq]
  rcases hEnds with hEnd | ⟨hBlock, hClose⟩
  · rw [h.current.eq_of_isEnd hEnd]
    exact Or.inl hEnd
  · rcases h.current with hSame | ⟨-, hClose' | hEnd'⟩
    · rw [hSame]
      exact Or.inr ⟨hBlock, hClose⟩
    · exact Or.inr ⟨hBlock, hClose'⟩
    · exact Or.inl hEnd'

end GiveWay

/-! ## The contract -/

/-- What each parsing function does on a list that the first gives way to: a step without reports
comes out again. At a closing brace no operand and no statement begins. -/
def yielding (p q : Setting) : Contract where
  expression ts floor s := s.errors = [] → ¬ (p.current ts).is .closeCurly = true ∧
    ∀ ts', GiveWay p q ts ts' → Parse.expression q ts' floor = s
  operators ts floor left s := s.errors = [] →
    ∀ ts', GiveWay p q ts ts' → Parse.operators q ts' floor left = s
  operand ts s := s.errors = [] → ∀ ts' rule, GiveWay p q ts ts' → Opening (p.current ts) rule →
    Parse.operand q ts' rule = s
  branches ts condition s := s.errors = [] →
    ∀ ts', GiveWay p q ts ts' → Parse.branches q ts' condition = s
  otherwise ts condition body s := s.errors = [] →
    ∀ ts', GiveWay p q ts ts' → Parse.otherwise q ts' condition body = s
  block ts s := s.errors = [] → ∀ ts', GiveWay p q ts ts' → Parse.block q ts' = s
  statements ts inBlock s := s.errors = [] →
    ∀ ts', GiveWay p q ts ts' → Parse.statements q ts' inBlock = s
  statement ts s := s.errors = [] → ¬ (p.current ts).is .closeCurly = true ∧
    ∀ ts', GiveWay p q ts ts' → Parse.statement q ts' = s

theorem not_close_of_is {s : Symbol} (hIs : t.is s = true) (hs : s ≠ .closeCurly) :
    ¬ t.is .closeCurly = true :=
  fun hClose => hs (Token.is_unique hIs hClose)

/-- A construct that is ended by a symbol other than a closing brace. -/
theorem closing_same {α : Type} {s : Symbol} {fault : String → Fault} {part : Step (Option α)}
    (hs : s ≠ .closeCurly) (h : GiveWay p q ts ts')
    (hClean : (closing p s fault ts part).errors = []) :
    closing q s fault ts' part = closing p s fault ts part := by
  have hNext := next_of_closing hClean
  have hNext' : (q.next (ts'.drop part.moved)).is s = true :=
    ((h.drop part.moved).next.is_iff hs).2 hNext
  rw [closing_found hNext, closing_found hNext']

/-- What is reported about the part is reported about the construct that ends behind it. -/
theorem clean_part {α : Type} {s : Symbol} {fault : String → Fault} {part : Step (Option α)}
    (hClean : (closing p s fault ts part).errors = []) : part.errors = [] :=
  List.prefix_nil.1 (hClean ▸ closing_errors)

/-! ### Expressions -/

section

variable {floor : BindingPower} {left condition : Option Expr} {body : List Stmt}
  {first s : Step (Option Expr)} (hq : q.IsStandard)
include hq

theorem yielding_opened {rule : OperandRule} (hOpening : Opening t rule)
    (hFirst : (yielding p q).operand (t :: rest) first)
    (hRest : (yielding p q).operators ((t :: rest).drop first.moved) floor first.value s) :
    (yielding p q).expression (t :: rest) floor (s.after first.moved first.errors) := by
  intro hClean
  refine ⟨hOpening.not_is (by decide), fun ts' h => ?_⟩
  obtain ⟨hCleanFirst, hCleanRest⟩ := List.append_eq_nil_iff.1 hClean
  obtain ⟨rest', rfl, -⟩ := h.cons hq hOpening.not_isEnd (hOpening.not_is (by decide))
  have hSame : operand q (t :: rest') rule = first := hFirst hCleanFirst _ rule h hOpening
  rw [expression_of_opening hq hOpening, hSame, hRest hCleanRest _ (h.drop first.moved)]

theorem yielding_stop (hp : p.IsStandard) (hStop : ¬ floor < p.grammar.power (p.next ts)) :
    (yielding p q).operators ts floor left (.stay left) := by
  intro _ ts' h
  apply operators_stop
  rwa [hq.grammar, h.next.power_eq, ← hp.grammar]

theorem yielding_fold {head : Token} {op : BinaryOp} {right : Step (Option Expr)}
    (hIs : t.is op.symbol = true) (hFloor : floor < op.power)
    (hRight : (yielding p q).expression rest op.power right)
    (hRest : (yielding p q).operators (rest.drop right.moved) floor
      (combine op left right.value) s) :
    (yielding p q).operators (head :: t :: rest) floor left
      (s.after (2 + right.moved) right.errors) := by
  intro hClean ts' h
  obtain ⟨hCleanRight, hCleanRest⟩ := List.append_eq_nil_iff.1 hClean
  obtain ⟨head', rest', rfl, hBehind⟩ := h.cons_cons_of_is hq hIs (by cases op <;> decide)
  have hSame : expression q rest' op.power = right := (hRight hCleanRight).2 _ hBehind
  rw [operators_fold hq hIs hFloor, hSame, hRest hCleanRest _ (hBehind.drop right.moved)]

/-! ### Operands -/

theorem yielding_integer (hClass : t.tokenClass = .number) :
    (yielding p q).operand (t :: rest) (integer t) := by
  intro _ ts' rule h hOpening
  cases hOpening.unique (.integer hClass)
  obtain ⟨rest', rfl, -⟩ :=
    h.cons_of_tokenClass hq hClass (fun s => s.tokenClass_ne.1) (by decide)
  exact operand_integer

theorem yielding_truth (hClass : t.tokenClass = .boolean) :
    (yielding p q).operand (t :: rest) (truth t) := by
  intro _ ts' rule h hOpening
  cases hOpening.unique (.truth hClass)
  obtain ⟨rest', rfl, -⟩ :=
    h.cons_of_tokenClass hq hClass (fun s => s.tokenClass_ne.2.1) (by decide)
  exact operand_truth

theorem yielding_name (hClass : t.tokenClass = .identifier) :
    (yielding p q).operand (t :: rest) (name t) := by
  intro _ ts' rule h hOpening
  cases hOpening.unique (.name hClass)
  obtain ⟨rest', rfl, -⟩ :=
    h.cons_of_tokenClass hq hClass (fun s => s.tokenClass_ne.2.2.1) (by decide)
  exact operand_name

theorem yielding_unary {op : UnaryOp} (hIs : t.is op.symbol = true)
    (hOperand : (yielding p q).expression rest .unary s) :
    (yielding p q).operand (t :: rest) ((s.build (.unary op)).after 1 []) := by
  intro hClean ts' rule h hOpening
  cases hOpening.unique (.unary op hIs)
  obtain ⟨rest', rfl, hBehind⟩ := h.cons_of_is hq hIs (by cases op <;> decide)
  rw [operand_unary hIs, (hOperand hClean).2 _ hBehind]

theorem yielding_group (hIs : t.is .openParen = true)
    (hInner : (yielding p q).expression rest .lowest s) :
    (yielding p q).operand (t :: rest)
      ((closing p .closeParen (.missingClosingParen "grouped expression") rest s).after 1 []) := by
  intro hClean ts' rule h hOpening
  cases hOpening.unique (.group hIs)
  obtain ⟨rest', rfl, hBehind⟩ := h.cons_of_is hq hIs (by decide)
  have hSame : expression q rest' .lowest = s := (hInner (clean_part hClean)).2 _ hBehind
  rw [operand_group, hSame, closing_same (by decide) hBehind hClean]

theorem yielding_cond {inner : Step (Option Expr)} (hIs : t.is .ifWord = true)
    (hOpen : (p.current rest).is .openParen = true)
    (hCondition : (yielding p q).expression rest .lowest inner)
    (hRest : (yielding p q).branches (rest.drop inner.moved) inner.value s) :
    (yielding p q).operand (t :: rest) (s.after (1 + inner.moved) inner.errors) := by
  intro hClean ts' rule h hOpening
  cases hOpening.unique (.cond hIs)
  obtain ⟨hCleanCondition, hCleanRest⟩ := List.append_eq_nil_iff.1 hClean
  obtain ⟨rest', rfl, hBehind⟩ := h.cons_of_is hq hIs (by decide)
  have hOpen' : (q.current rest').is .openParen = true :=
    (hBehind.current.is_iff (by decide)).2 hOpen
  have hSame : expression q rest' .lowest = inner := (hCondition hCleanCondition).2 _ hBehind
  rw [operand_cond hOpen', hSame, hRest hCleanRest _ (hBehind.drop inner.moved)]

theorem yielding_branches {close opening : Token} {inner : Step (List Stmt)}
    (hClose : close.is .closeParen = true) (hOpening : opening.is .openCurly = true)
    (hBody : (yielding p q).block (opening :: rest) inner)
    (hRest : (yielding p q).otherwise ((opening :: rest).drop inner.moved) condition
      inner.value s) :
    (yielding p q).branches (close :: opening :: rest) condition
      (s.after (1 + inner.moved) inner.errors) := by
  intro hClean ts' h
  obtain ⟨hCleanBody, hCleanRest⟩ := List.append_eq_nil_iff.1 hClean
  obtain ⟨tail', rfl, hTail⟩ := h.cons_of_is hq hClose (by decide)
  obtain ⟨rest', rfl, -⟩ := hTail.cons_of_is hq hOpening (by decide)
  have hSame : block q (opening :: rest') = inner := hBody hCleanBody _ hTail
  rw [branches_cons hClose hOpening, hSame, hRest hCleanRest _ (hTail.drop inner.moved)]

omit hq in
theorem yielding_otherwise_none (hElse : ¬ (p.next ts).is .elseWord = true) :
    (yielding p q).otherwise ts condition body
      (.stay (condition.map fun c => .cond c body none)) := by
  intro _ ts' h
  apply otherwise_none
  rwa [h.next.is_iff (by decide)]

theorem yielding_otherwise {last word opening : Token} {other : Step (List Stmt)}
    (hElse : word.is .elseWord = true) (hOpening : opening.is .openCurly = true)
    (hOther : (yielding p q).block (opening :: rest) other) :
    (yielding p q).otherwise (last :: word :: opening :: rest) condition body
      ⟨condition.map fun c => .cond c body (some other.value), 2 + other.moved, other.errors⟩ := by
  intro hClean ts' h
  obtain ⟨last', tail', rfl, hTail⟩ := h.cons_cons_of_is hq hElse (by decide)
  obtain ⟨rest', rfl, -⟩ := hTail.cons_of_is hq hOpening (by decide)
  have hSame : block q (opening :: rest') = other := hOther hClean _ hTail
  rw [otherwise_some hElse hOpening, hSame]

/-! ### Statements -/

omit hq in
theorem yielding_block {inner : Step (List Stmt)}
    (hBody : (yielding p q).statements rest true inner) :
    (yielding p q).block (t :: rest) (inner.after 1 []) := by
  intro hClean ts' h
  rw [block_eq, hBody hClean _ (h.drop 1)]

/-- Outside of a block a closing brace begins no statement, so that it was reported. -/
theorem yielding_next {inBlock : Bool} {one : Step (Option Stmt)} {others : Step (List Stmt)}
    (hEnds : ¬ Ends inBlock (t :: rest)) (hOne : (yielding p q).statement (t :: rest) one)
    (hOthers : (yielding p q).statements (rest.drop one.moved) inBlock others) :
    (yielding p q).statements (t :: rest) inBlock
      ⟨one.value.toList ++ others.value, one.moved + 1 + others.moved,
        one.errors ++ others.errors⟩ := by
  intro hClean ts' h
  obtain ⟨hCleanOne, hCleanOthers⟩ := List.append_eq_nil_iff.1 hClean
  have hEnd : ¬ t.isEnd = true := by
    intro hEnd
    apply hEnds
    rintro u ⟨⟩
    exact Or.inl hEnd
  obtain ⟨rest', rfl, hBehind⟩ := h.cons hq hEnd (hOne hCleanOne).1
  have hEnds' : ¬ Ends inBlock (t :: rest') := by
    intro hAll
    apply hEnds
    rintro u ⟨⟩
    exact hAll t rfl
  have hSame : statement q (t :: rest') = one := (hOne hCleanOne).2 _ h
  rw [statements_cons hEnds', hSame, hOthers hCleanOthers _ (hBehind.drop one.moved)]

theorem yielding_expressionStmt (hVar : ¬ (p.current ts).is .varWord = true)
    (hReturn : ¬ (p.current ts).is .returnWord = true)
    (hExpr : (yielding p q).expression ts .lowest s) :
    (yielding p q).statement ts ⟨s.value.map .expr,
      s.moved + (if (p.next (ts.drop s.moved)).is .semicolon then 1 else 0), s.errors⟩ := by
  intro hClean
  obtain ⟨hClose, hSame⟩ := hExpr hClean
  refine ⟨hClose, fun ts' h => ?_⟩
  have hVar' : ¬ (q.current ts').is .varWord = true := by rwa [h.current.is_iff (by decide)]
  have hReturn' : ¬ (q.current ts').is .returnWord = true := by
    rwa [h.current.is_iff (by decide)]
  have hMark : (q.next (ts'.drop s.moved)).is .semicolon =
      (p.next (ts.drop s.moved)).is .semicolon :=
    Bool.eq_iff_iff.2 ((h.drop s.moved).next.is_iff (by decide))
  rw [statement_expr hq hVar' hReturn', expressionStmt_eq, hSame _ h, hMark]

theorem yielding_ret (hIs : t.is .returnWord = true)
    (hExpr : (yielding p q).expression rest .lowest s) :
    (yielding p q).statement (t :: rest)
      (((closing p .semicolon (.missingSemicolon "return") rest s).build .ret).after 1 []) := by
  intro hClean
  refine ⟨not_close_of_is hIs (by decide), fun ts' h => ?_⟩
  obtain ⟨rest', rfl, hBehind⟩ := h.cons_of_is hq hIs (by decide)
  have hSame : expression q rest' .lowest = s := (hExpr (clean_part hClean)).2 _ hBehind
  rw [statement_ret hq hIs, hSame, closing_same (by decide) hBehind hClean]

theorem yielding_varDecl {word sign : Token} (hIs : t.is .varWord = true)
    (hName : word.tokenClass = .identifier) (hSign : sign.is .assignment = true)
    (hExpr : (yielding p q).expression rest .lowest s) :
    (yielding p q).statement (t :: word :: sign :: rest)
      (((closing p .semicolon (.missingSemicolon "var") rest s).build
        fun v => .varDecl word.lexeme (some v)).after 3 []) := by
  intro hClean
  refine ⟨not_close_of_is hIs (by decide), fun ts' h => ?_⟩
  obtain ⟨_, rfl, hWord⟩ := h.cons_of_is hq hIs (by decide)
  obtain ⟨_, rfl, hSigned⟩ :=
    hWord.cons_of_tokenClass hq hName (fun s => s.tokenClass_ne.2.2.1) (by decide)
  obtain ⟨rest', rfl, hBehind⟩ := hSigned.cons_of_is hq hSign (by decide)
  have hSame : expression q rest' .lowest = s := (hExpr (clean_part hClean)).2 _ hBehind
  rw [statement_varDecl hq hIs, varDecl_some hName hSign, hSame,
    closing_same (by decide) hBehind hClean]

theorem yielding_varDecl_none {word sign : Token} (hIs : t.is .varWord = true)
    (hName : word.tokenClass = .identifier) (hSign : sign.is .semicolon = true) :
    (yielding p q).statement (t :: word :: sign :: rest)
      ⟨some (.varDecl word.lexeme none), 2, []⟩ := by
  intro _
  refine ⟨not_close_of_is hIs (by decide), fun ts' h => ?_⟩
  obtain ⟨_, rfl, hWord⟩ := h.cons_of_is hq hIs (by decide)
  obtain ⟨_, rfl, hSigned⟩ :=
    hWord.cons_of_tokenClass hq hName (fun s => s.tokenClass_ne.2.2.1) (by decide)
  obtain ⟨rest', rfl, -⟩ := hSigned.cons_of_is hq hSign (by decide)
  rw [statement_varDecl hq hIs, varDecl_none hName hSign]

end

/-- Every way to a result without reports is taken on the other list too. -/
theorem yielding_respected (hp : p.IsStandard) (hq : q.IsStandard) : (yielding p q).Respected p where
  noOperand _ := nofun
  opened hOpening hFirst hRest := yielding_opened hq hOpening hFirst hRest
  stop hStop := yielding_stop hq hp hStop
  fold hIs hFloor hRight hRest := yielding_fold hq hIs hFloor hRight hRest
  integer hClass := yielding_integer hq hClass
  truth hClass := yielding_truth hq hClass
  name hClass := yielding_name hq hClass
  unary hIs hOperand := yielding_unary hq hIs hOperand
  group hIs hInner := yielding_group hq hIs hInner
  cond hIs hOpen hCondition hRest := yielding_cond hq hIs hOpen hCondition hRest
  condUnopened _ _ := nofun
  branches hClose hOpening hBody hRest := yielding_branches hq hClose hOpening hBody hRest
  branchesUnclosed _ := nofun
  branchesUnopened _ _ := nofun
  otherwiseNone hElse := yielding_otherwise_none hElse
  otherwise hElse hOpening hOther := yielding_otherwise hq hElse hOpening hOther
  otherwiseUnopened _ _ := nofun
  block _ hBody := yielding_block hBody
  ends hEnds := fun _ _ h => statements_of_ends (h.ends hp hq hEnds)
  next hEnds hOne hOthers := yielding_next hq hEnds hOne hOthers
  expressionStmt hVar hReturn hExpr := yielding_expressionStmt hq hVar hReturn hExpr
  ret hIs hExpr := yielding_ret hq hIs hExpr
  varDecl hIs hName hSign hExpr := yielding_varDecl hq hIs hName hSign hExpr
  varDeclNone hIs hName hSign := yielding_varDecl_none hq hIs hName hSign
  varDeclUnnamed _ _ := nofun
  varDeclUnassigned _ _ _ _ := nofun

/-! ## Braces before the end -/

/-- What is seen of tokens in front of the mark of the end: the tokens, and then this mark. -/
theorem current_drop_concat {last : Token} (hEnd : p.endMark = last) (front : List Token) (i : Nat) :
    p.current ((front ++ [last]).drop i) = front[i]?.getD last := by
  subst hEnd
  exact current_drop_replicate p front 1 i

/-- With fewer braces the end comes earlier, so that it stands where braces stood. -/
theorem giveWay_of_fewer_braces {written braces kept : List Token} {last : Token}
    (hp : p.endMark = last) (hq : q.endMark = last) (hLast : last.isEnd = true)
    (hBraces : ∀ t ∈ braces, t.is .closeCurly = true) (hKept : kept.Sublist braces) :
    GiveWay p q (written ++ (braces ++ [last])) (written ++ (kept ++ [last])) := by
  induction written with
  | nil =>
    intro i
    rw [List.nil_append, List.nil_append, current_drop_concat hp, current_drop_concat hq]
    by_cases hBrace : i < braces.length
    · rw [List.getElem?_eq_getElem hBrace]
      refine Or.inr ⟨hBraces _ (List.getElem_mem hBrace), ?_⟩
      cases hFound : kept[i]? with
      | none => exact Or.inr hLast
      | some t' => exact Or.inl (hBraces t' (hKept.subset (List.mem_of_getElem? hFound)))
    · have hLength := hKept.length_le
      rw [List.getElem?_eq_none (by omega), List.getElem?_eq_none (by omega)]
      exact Or.inl rfl
  | cons t rest ih =>
    intro i
    cases i with
    | zero => exact Or.inl rfl
    | succ i => exact ih i

/-- Tokens that are parsed without errors and end with closing braces and the mark of the end, with
only some of these braces or with none: there are still no errors, and the statements are the
same. -/
theorem parse_of_fewer_braces {written braces kept : List Token} {last : Token}
    (hBraces : ∀ t ∈ braces, t.is .closeCurly = true) (hLast : last.isEnd = true)
    (hClean : (Program.parse (written ++ (braces ++ [last]))).errors = [])
    (hKept : kept.Sublist braces) :
    (Program.parse (written ++ (kept ++ [last]))).errors = [] ∧
      (Program.parse (written ++ (kept ++ [last]))).statements =
        (Program.parse (written ++ (braces ++ [last]))).statements := by
  have hp := isStandard_ofTokens (written ++ (braces ++ [last]))
  have hq := isStandard_ofTokens (written ++ (kept ++ [last]))
  have hEnd : ∀ front : List Token,
      (Setting.ofTokens (written ++ (front ++ [last]))).endMark = last := by
    intro front
    rw [← List.append_assoc]
    exact endMark_append hLast
  have hGiveWay : GiveWay _ _ (written ++ (braces ++ [last])) (written ++ (kept ++ [last])) :=
    giveWay_of_fewer_braces (hEnd braces) (hEnd kept) hLast hBraces hKept
  have hSame : statements (.ofTokens (written ++ (kept ++ [last]))) _ false =
      statements (.ofTokens (written ++ (braces ++ [last]))) _ false :=
    (Contract.holdsAt (yielding_respected hp hq) hp _).statements false hClean _ hGiveWay
  constructor
  · exact (congrArg Step.errors hSame).trans hClean
  · exact congrArg Step.value hSame

/-- A sum that ends in the second block of a conditional, which ends in a negated conditional. -/
def hanging : List Token :=
  (Reading.default.tokens "1 + if (a) \x7bb\x7d else \x7bc; 2 * -if (d) \x7be;").dropLast

/-- A closing brace at a byte offset. -/
def braceAt (offset : Nat) : Token :=
  ⟨.closeBracket, "\x7d", .ofOffsets Reading.unnamed offset (offset + 1)⟩

theorem parse_of_fewer_braces_hanging :
    (∀ t ∈ [braceAt 40, braceAt 42], t.is .closeCurly = true) ∧
      (Token.endOfInput Reading.unnamed 43).isEnd = true ∧
      (Program.parse (hanging ++
        ([braceAt 40, braceAt 42] ++ [.endOfInput Reading.unnamed 43]))).errors = [] ∧
      (Program.parse (hanging ++ ([] ++ [.endOfInput Reading.unnamed 43]))).errors = [] ∧
      (Program.parse (hanging ++ ([] ++ [.endOfInput Reading.unnamed 43]))).statements =
        (Program.parse (hanging ++
          ([braceAt 40, braceAt 42] ++ [.endOfInput Reading.unnamed 43]))).statements :=
  have hBraces : ∀ t ∈ [braceAt 40, braceAt 42], t.is .closeCurly = true := by decide
  have hLast : (Token.endOfInput Reading.unnamed 43).isEnd = true := rfl
  have hClean : (Program.parse (hanging ++
      ([braceAt 40, braceAt 42] ++ [.endOfInput Reading.unnamed 43]))).errors = [] := by
    decide +kernel
  ⟨hBraces, hLast, hClean, parse_of_fewer_braces hBraces hLast hClean (List.nil_sublist _)⟩

end Parse

end Frontend
