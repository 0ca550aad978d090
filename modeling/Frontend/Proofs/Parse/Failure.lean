import Frontend.Proofs.Parse.Completeness
import Frontend.Proofs.Tree.Legible

/-!
# Reports that come up

A report within a part of a construct is one of the whole, once all that stands before the part is
read as it was meant. This module says so for each construct, and gives for some the report that it
makes itself.

* `OperandFails`, `ExprFails`, `StmtFails`, `BodyFails`: what is known to be reported.
* `operandFails_branches`: a conditional behind its condition.
* `stmtFails_ret`, `stmtFails_assigned`: statements with a value.
* `statements_fails`, `bodyFails_of_rest`: statements one behind the other.
-/

namespace Frontend.Parse

variable {p : Setting} {t : Token} {ts us rest : List Token}

/-! ## Reports that come up -/

/-- Reading an expression reports something, whatever the floor. -/
def ExprFails (p : Setting) (ts : List Token) : Prop :=
  ∀ floor, (expression p ts floor).errors ≠ []

/-- An operand begins, and reading it reports something. -/
def OperandFails (p : Setting) (ts : List Token) : Prop :=
  ∃ t rest rule, ts = t :: rest ∧ Opening t rule ∧ (operand p ts rule).errors ≠ []

/-- Reading a statement reports something. -/
def StmtFails (p : Setting) (ts : List Token) : Prop :=
  (statement p ts).errors ≠ []

/-- Reading the statements of a block reports something. -/
def BodyFails (p : Setting) (ts : List Token) : Prop :=
  (statements p ts true).errors ≠ []

theorem exprFails_of_noOperand (hp : p.IsStandard) (h : ∀ rule, ¬ Opening (p.current ts) rule) :
    ExprFails p ts := by
  intro floor
  rw [expression_of_noOperand hp h]
  exact List.cons_ne_nil _ _

theorem OperandFails.expr (hp : p.IsStandard) (h : OperandFails p ts) : ExprFails p ts := by
  obtain ⟨t, rest, rule, rfl, hOpening, hFails⟩ := h
  intro floor
  rw [expression_of_opening hp hOpening]
  exact List.append_ne_nil_of_left_ne_nil hFails _

theorem closing_fails {α : Type} {s : Symbol} {fault : String → Fault} {part : Step (Option α)}
    (h : part.errors ≠ []) : (closing p s fault ts part).errors ≠ [] := by
  intro hClean
  exact h (List.prefix_nil.1 (hClean ▸ closing_errors))

theorem operandFails_unary {op : UnaryOp} (hIs : t.is op.symbol = true) (h : ExprFails p rest) :
    OperandFails p (t :: rest) := by
  refine ⟨t, rest, _, rfl, .unary op hIs, ?_⟩
  rw [operand_unary hIs]
  exact h .unary

theorem operandFails_group (hIs : t.is .openParen = true)
    (h : (expression p rest .lowest).errors ≠ []) : OperandFails p (t :: rest) := by
  refine ⟨t, rest, _, rfl, .group hIs, ?_⟩
  rw [operand_group]
  exact closing_fails h

/-- A left operand is read, and the right one reports something. -/
theorem errors_right (hp : p.IsStandard) {op : BinaryOp} {l : Expr} {dangling : Bool}
    (hLeft : Renders l none dangling us) (hIs : t.is op.symbol = true) (h : ExprFails p rest) :
    (expression p (us ++ t :: rest) .lowest).errors ≠ [] := by
  have hFits : Fits p none dangling .lowest (t :: rest) := by
    refine fits_of_none fun _ hElse => ?_
    have hSymbol := Token.is_unique hIs hElse
    cases op <;> cases hSymbol
  obtain ⟨front, last, -, hRead⟩ := settles_of_renders hp hLeft hFits
  rw [hRead, operators_fold hp hIs op.lowest_lt_power]
  exact List.append_ne_nil_of_left_ne_nil (h op.power) _

/-! ## Conditionals that report -/

theorem operandFails_unopened (hIs : t.is .ifWord = true)
    (h : ¬ (p.current rest).is .openParen = true) : OperandFails p (t :: rest) := by
  have hNext : ¬ (p.next (t :: rest)).is .openParen = true := h
  refine ⟨t, rest, _, rfl, .cond hIs, ?_⟩
  rw [operand_cond_unopened hNext]
  exact List.cons_ne_nil _ _

theorem operandFails_condition (hIs : t.is .ifWord = true)
    (h : (expression p rest .lowest).errors ≠ []) : OperandFails p (t :: rest) := by
  by_cases hOpen : (p.current rest).is .openParen = true
  · refine ⟨t, rest, _, rfl, .cond hIs, ?_⟩
    rw [operand_cond hOpen]
    exact List.append_ne_nil_of_left_ne_nil h _
  · exact operandFails_unopened hIs hOpen

/-- A condition is read, and what follows it reports something. -/
theorem operandFails_branches (hp : p.IsStandard) {c : Expr} (hIs : t.is .ifWord = true)
    (hCondition : RendersEnclosed c us)
    (hStop : ¬ BindingPower.lowest < p.grammar.power (p.current rest))
    (h : ∀ close condition, close.is .closeParen = true →
      (branches p (close :: rest) condition).errors ≠ []) :
    OperandFails p (t :: (us ++ rest)) := by
  refine ⟨t, us ++ rest, _, rfl, .cond hIs, ?_⟩
  obtain ⟨opening, inner, close, rfl, hOpening, hClose, c', top, dangling, hRenders, -⟩ :=
    hCondition
  have hSettles : Settles p c' (opening :: (inner ++ [close])) rest .lowest :=
    settles_group hp hOpening hClose
      (settles_of_renders hp hRenders (fits_of_close hp hRenders hClose (.inl rfl)))
  have hOpen : (p.current (opening :: (inner ++ [close]) ++ rest)).is .openParen = true := hOpening
  have hDrop : (opening :: (inner ++ [close]) ++ rest).drop
      ((opening :: (inner ++ [close])).length - 1) = close :: rest := by
    simp
  rw [operand_cond hOpen, hSettles.reads hStop, hDrop]
  exact List.append_ne_nil_of_right_ne_nil _ (h close _ hClose)

/-- A condition in front of what is no block. -/
theorem operandFails_unbraced (hp : p.IsStandard) {c : Expr} (hIs : t.is .ifWord = true)
    (hCondition : RendersEnclosed c us)
    (hStop : ¬ BindingPower.lowest < p.grammar.power (p.current rest))
    (h : ¬ (p.current rest).is .openCurly = true) : OperandFails p (t :: (us ++ rest)) := by
  refine operandFails_branches hp hIs hCondition hStop fun close condition hClose => ?_
  have hCurrent : (p.current (close :: rest)).is .closeParen = true := hClose
  have hNext : ¬ (p.next (close :: rest)).is .openCurly = true := h
  rw [branches_unopened hCurrent hNext]
  exact List.cons_ne_nil _ _

theorem operandFails_body (hp : p.IsStandard) {c : Expr} {curly : Token} (hIs : t.is .ifWord = true)
    (hCondition : RendersEnclosed c us) (hCurly : curly.is .openCurly = true)
    (h : BodyFails p rest) : OperandFails p (t :: (us ++ curly :: rest)) := by
  have hStop : ¬ BindingPower.lowest < p.grammar.power (p.current (curly :: rest)) :=
    not_lt_of_is hp hCurly (by intro op; cases op <;> decide)
  refine operandFails_branches hp hIs hCondition hStop fun close condition hClose => ?_
  rw [branches_cons hClose hCurly, block_cons]
  exact List.append_ne_nil_of_left_ne_nil h _

/-- A condition and a block are read, and what follows them reports something. -/
theorem operandFails_otherwise (hp : p.IsStandard) {c : Expr} {body : List Stmt}
    {tsBody : List Token} (hIs : t.is .ifWord = true) (hCondition : RendersEnclosed c us)
    (hBody : RendersBlockLike body tsBody)
    (h : ∀ last condition body, (otherwise p (last :: rest) condition body).errors ≠ []) :
    OperandFails p (t :: (us ++ (tsBody ++ rest))) := by
  obtain ⟨body', hRenders, -⟩ := hBody
  have hReads : ReadsBlock p body' tsBody rest := readsBlock_of_renders hp hRenders
  obtain ⟨⟨curly, tail, rfl, hCurly⟩, hBlock⟩ := hReads
  have hStop : ¬ BindingPower.lowest < p.grammar.power (p.current (curly :: tail ++ rest)) :=
    not_lt_of_is hp hCurly (by intro op; cases op <;> decide)
  refine operandFails_branches hp hIs hCondition hStop fun close condition hClose => ?_
  obtain ⟨front, last, hSplit⟩ : ∃ front last, curly :: tail = front ++ [last] :=
    ⟨_, _, (List.dropLast_concat_getLast (List.cons_ne_nil curly tail)).symm⟩
  have hDrop : (curly :: tail ++ rest).drop ((curly :: tail).length - 1) = last :: rest := by
    simp [hSplit]
  rw [List.cons_append] at hBlock hDrop ⊢
  rw [branches_cons hClose hCurly, hBlock, hDrop]
  exact List.append_ne_nil_of_right_ne_nil _ (h last _ _)

theorem operandFails_else (hp : p.IsStandard) {c : Expr} {body : List Stmt}
    {tsBody : List Token} (hIs : t.is .ifWord = true) (hCondition : RendersEnclosed c us)
    (hBody : RendersBlockLike body tsBody) (hElse : (p.current rest).is .elseWord = true)
    (h : ¬ (p.next rest).is .openCurly = true) :
    OperandFails p (t :: (us ++ (tsBody ++ rest))) := by
  refine operandFails_otherwise hp hIs hCondition hBody fun last condition body => ?_
  have hNext : (p.next (last :: rest)).is .elseWord = true := hElse
  have hOpening : ¬ (p.next ((last :: rest).drop 1)).is .openCurly = true := h
  rw [otherwise_unopened hNext hOpening]
  exact List.cons_ne_nil _ _

theorem operandFails_other (hp : p.IsStandard) {c : Expr} {body : List Stmt}
    {tsBody : List Token} {word curly : Token} (hIs : t.is .ifWord = true)
    (hCondition : RendersEnclosed c us) (hBody : RendersBlockLike body tsBody)
    (hElse : word.is .elseWord = true) (hCurly : curly.is .openCurly = true)
    (h : BodyFails p rest) : OperandFails p (t :: (us ++ (tsBody ++ word :: curly :: rest))) := by
  refine operandFails_otherwise hp hIs hCondition hBody fun last condition body => ?_
  rw [otherwise_some hElse hCurly, block_cons]
  exact h

/-! ## Statements that report -/

theorem ExprFails.stmt (hp : p.IsStandard) (h : ExprFails p ts)
    (hVar : ¬ (p.current ts).is .varWord = true)
    (hReturn : ¬ (p.current ts).is .returnWord = true) : StmtFails p ts := by
  unfold StmtFails
  rw [statement_expr hp hVar hReturn, expressionStmt_eq]
  exact h .lowest

theorem OperandFails.stmt (hp : p.IsStandard) (h : OperandFails p ts) : StmtFails p ts := by
  have hExpr := h.expr hp
  obtain ⟨t, rest, rule, rfl, hOpening, -⟩ := h
  exact hExpr.stmt hp (hOpening.not_is (by decide)) (hOpening.not_is (by decide))

theorem stmtFails_ret (hp : p.IsStandard) (hIs : t.is .returnWord = true) (h : ExprFails p rest) :
    StmtFails p (t :: rest) := by
  unfold StmtFails
  rw [statement_ret hp hIs]
  exact closing_fails (h .lowest)

/-- A value is read, but no semicolon follows it. -/
theorem stmtFails_unended (hp : p.IsStandard) {e : Expr} (hIs : t.is .returnWord = true)
    (hUs : 0 < us.length) (h : expression p (us ++ rest) .lowest = ⟨some e, us.length - 1, []⟩)
    (hNext : ¬ (p.current rest).is .semicolon = true) : StmtFails p (t :: (us ++ rest)) := by
  have hClose : ¬ (p.next ((us ++ rest).drop (us.length - 1))).is .semicolon = true := by
    rw [next_drop_last p rest hUs]
    exact hNext
  unfold StmtFails
  rw [statement_ret hp hIs, h, Step.errors_after, Step.errors_build, closing_missing]
  · simp
  · exact hClose

theorem stmtFails_unnamed (hp : p.IsStandard) (hIs : t.is .varWord = true)
    (h : (p.current rest).tokenClass ≠ .identifier) : StmtFails p (t :: rest) := by
  have hNext : (p.next (t :: rest)).tokenClass ≠ .identifier := h
  unfold StmtFails
  rw [statement_varDecl hp hIs, varDecl_unnamed hNext]
  exact List.cons_ne_nil _ _

theorem stmtFails_unassigned (hp : p.IsStandard) {name : Token} (hIs : t.is .varWord = true)
    (hSemicolon : ¬ (p.current rest).is .semicolon = true)
    (hAssignment : ¬ (p.current rest).is .assignment = true) :
    StmtFails p (t :: name :: rest) := by
  by_cases hName : name.tokenClass = .identifier
  · have hNext : (p.next (t :: name :: rest)).tokenClass = .identifier := hName
    unfold StmtFails
    rw [statement_varDecl hp hIs, varDecl_unassigned hNext hSemicolon hAssignment]
    exact List.cons_ne_nil _ _
  · exact stmtFails_unnamed hp hIs hName

theorem stmtFails_assigned (hp : p.IsStandard) {name sign : Token} (hIs : t.is .varWord = true)
    (hName : name.tokenClass = .identifier) (hSign : sign.is .assignment = true)
    (h : ExprFails p rest) : StmtFails p (t :: name :: sign :: rest) := by
  unfold StmtFails
  rw [statement_varDecl hp hIs, varDecl_some hName hSign]
  exact closing_fails (h .lowest)

/-- A keyword is no statement by itself. -/
theorem stmtFails_of_isEnd (hp : p.IsStandard) {k : Symbol} (hk : k.tokenClass = .keyword)
    (hIs : t.is k = true) (hEnd : (p.current rest).isEnd = true) : StmtFails p (t :: rest) := by
  by_cases hVar : k = .varWord
  · subst hVar
    refine stmtFails_unnamed hp hIs fun hName => ?_
    have hClass : (p.current rest).tokenClass = .endOfInput := by simpa [Token.isEnd] using hEnd
    cases hName.symm.trans hClass
  · by_cases hReturn : k = .returnWord
    · subst hReturn
      exact stmtFails_ret hp hIs (exprFails_of_noOperand hp fun _ h => h.not_isEnd hEnd)
    · have hExpr : ExprFails p (t :: rest) := by
        by_cases hIf : k = .ifWord
        · subst hIf
          exact (operandFails_unopened hIs (Token.not_is_of_isEnd hEnd _)).expr hp
        · refine exprFails_of_noOperand hp fun rule hOpening => hOpening.not_is ?_ hIs
          revert hk hIf
          cases k <;> decide
      refine hExpr.stmt hp (fun hIs' => ?_) (fun hIs' => ?_)
      · exact hVar (Token.is_unique hIs hIs')
      · exact hReturn (Token.is_unique hIs hIs')

theorem statements_fails {inBlock : Bool} (hNot : ¬ Ends inBlock ts) (h : StmtFails p ts) :
    (statements p ts inBlock).errors ≠ [] := by
  cases ts with
  | nil => exact absurd nofun hNot
  | cons t rest =>
    rw [statements_cons hNot]
    exact List.append_ne_nil_of_left_ne_nil h _

/-- A statement is read, and what follows it reports something. -/
theorem bodyFails_of_rest {s : Stmt} (hNot : ¬ Ends true (t :: (us ++ rest)))
    (hOne : statement p (t :: us ++ rest) = ⟨some s, us.length, []⟩) (h : BodyFails p rest) :
    BodyFails p (t :: us ++ rest) := by
  unfold BodyFails
  rw [List.cons_append] at hOne ⊢
  rw [statements_cons hNot, hOne, List.drop_left]
  exact h

end Frontend.Parse
