import Frontend.Proofs.Parse.Rendering
import Frontend.Proofs.Parse.Rules

/-!
# Every rendering is read back

The parser finds the tree behind each of its renderings, and ends on the last token of the
rendering. What follows must not go on with it: no operator that binds more tightly than the floor,
and no `else` behind a conditional that lacks a second block.

The proof goes by induction on the rendering. With an operator on top of a left operand, the
operators behind it are not read by the function that reads the operand, but by the loop that
follows. So what is carried through the induction is `Settles`: reading a rendering comes to the
loop over the operators, with the tree as its left operand and the place on the last token.

* `settles_of_renders`, `statement_of_renders`, `statements_of_renders`: the induction, one case
  for each way to write a tree.
* `expression_of_renders`: the result for expressions.
-/

namespace Frontend.Parse

variable {p : Setting} {floor : BindingPower} {e : Expr} {t : Token} {ts rest : List Token}

/-- Reading the tokens as an expression comes to the loop over the operators behind them. -/
def Settles (p : Setting) (e : Expr) (ts rest : List Token) (floor : BindingPower) : Prop :=
  ∃ front last, ts = front ++ [last] ∧
    expression p (ts ++ rest) floor =
      (operators p (last :: rest) floor (some e)).after front.length []

/-- No operator and no `else` stands next, and no semicolon. -/
structure Quiet (p : Setting) (ts : List Token) : Prop where
  operator : ∀ op : BinaryOp, ¬ (p.current ts).is op.symbol = true
  elseWord : ¬ (p.current ts).is .elseWord = true
  semicolon : ¬ (p.current ts).is .semicolon = true

theorem Settles.reads (h : Settles p e ts rest floor)
    (hStop : ¬ floor < p.grammar.power (p.current rest)) :
    expression p (ts ++ rest) floor = ⟨some e, ts.length - 1, []⟩ := by
  obtain ⟨front, last, rfl, hRead⟩ := h
  have hNext : ¬ floor < p.grammar.power (p.next (last :: rest)) := hStop
  rw [hRead, operators_stop hNext]
  simp [Step.after, Step.stay]

/-- An operand that is read completely comes to the loop behind it. -/
theorem settles_of_operand (hp : p.IsStandard) {rule : OperandRule} (hOpening : Opening t rule)
    (h : operand p (t :: ts ++ rest) rule = ⟨some e, ts.length, []⟩) :
    Settles p e (t :: ts) rest floor := by
  obtain ⟨front, last, hLast⟩ : ∃ front last, t :: ts = front ++ [last] :=
    ⟨_, _, (List.dropLast_concat_getLast (List.cons_ne_nil t ts)).symm⟩
  have hLength : ts.length = front.length := by
    have hCount := congrArg List.length hLast
    simpa using hCount
  refine ⟨front, last, hLast, ?_⟩
  have hRead : expression p (t :: (ts ++ rest)) floor = _ := expression_of_opening hp hOpening
  rw [List.cons_append] at h
  rw [List.cons_append, hRead, h, hLength, ← List.cons_append, hLast, List.append_assoc,
    List.drop_left' rfl, List.singleton_append]

theorem Quiet.not_lt (hp : p.IsStandard) (h : Quiet p ts) :
    ¬ floor < p.grammar.power (p.current ts) := by
  rw [hp.grammar, power_of_not_operator h.operator]
  exact BindingPower.not_lt_lowest floor

/-- Statements are followed by what does not go on with an expression. -/
theorem quiet_of_ends (hp : p.IsStandard) {inBlock : Bool} (h : Ends inBlock ts) : Quiet p ts := by
  have hNot : ∀ s : Symbol, s ≠ .closeCurly → ¬ (p.current ts).is s = true := by
    intro s hs hIs
    obtain ⟨t, rest, rfl, hIs'⟩ := hp.exists_cons hIs
    rcases h t rfl with hEnd | ⟨-, hClose⟩
    · exact Token.not_is_of_isEnd hEnd s hIs'
    · exact hs (Token.is_unique hIs' hClose)
  exact ⟨fun op => hNot _ (by cases op <;> decide), hNot _ (by decide), hNot _ (by decide)⟩

theorem quiet_of_begins (h : Begins t) (hDash : ¬ t.is .dash = true) : Quiet p (t :: rest) := by
  refine ⟨fun op => ?_, h.not_is (by decide), h.not_is (by decide)⟩
  rw [Setting.current_cons]
  cases op with
  | minus => exact hDash
  | _ => exact h.not_is (by decide)

theorem quiet_of_body (hp : p.IsStandard) {inBlock : Bool} {body : List Stmt}
    (h : RendersBody body ts) (hEnds : Ends inBlock rest)
    (hDash : ∀ t ∈ ts.head?, ¬ t.is .dash = true) :
    Quiet p (ts ++ rest) := by
  cases h with
  | nil => exact quiet_of_ends hp hEnds
  | cons hStmt _ _ =>
    obtain ⟨t, tail, rfl, hBegins⟩ := hStmt.exists_begins
    exact quiet_of_begins hBegins (hDash t rfl)

/-! ## Closing symbols -/

theorem Settles.length_pos (h : Settles p e ts rest floor) : 0 < ts.length := by
  obtain ⟨front, last, rfl, -⟩ := h
  simp

theorem next_drop_last (p : Setting) (rest : List Token) (h : 0 < ts.length) :
    p.next ((ts ++ rest).drop (ts.length - 1)) = p.current rest := by
  have hDrop : ((ts ++ rest).drop (ts.length - 1)).drop 1 = rest := by
    rw [List.drop_drop, Nat.sub_add_cancel h, List.drop_left]
  rw [Setting.next, hDrop]

/-- A symbol that is no operator binds nothing. -/
theorem not_lt_of_is (hp : p.IsStandard) {s : Symbol} (h : t.is s = true)
    (hs : ∀ op : BinaryOp, s ≠ op.symbol) : ¬ floor < p.grammar.power t := by
  have hNot : ∀ op : BinaryOp, ¬ t.is op.symbol = true :=
    fun op hIs => hs op (Token.is_unique h hIs)
  rw [hp.grammar, power_of_not_operator hNot]
  exact BindingPower.not_lt_lowest floor

/-- An expression and the symbol that ends its construct. -/
theorem closing_reads (hp : p.IsStandard) {close : Token} {s : Symbol} {fault : String → Fault}
    (hClose : close.is s = true) (hs : ∀ op : BinaryOp, s ≠ op.symbol)
    (h : Settles p e ts (close :: rest) .lowest) :
    closing p s fault (ts ++ close :: rest) (expression p (ts ++ close :: rest) .lowest) =
      ⟨some e, ts.length, []⟩ := by
  have hPos := h.length_pos
  have hNext : (p.next ((ts ++ close :: rest).drop (ts.length - 1))).is s = true := by
    rw [next_drop_last p _ hPos]
    exact hClose
  rw [h.reads (not_lt_of_is hp hClose hs), closing_found, Nat.sub_add_cancel hPos]
  exact hNext

/-! ## Operands -/

theorem settles_unary (hp : p.IsStandard) {op : UnaryOp} (hIs : t.is op.symbol = true)
    (h : Settles p e ts rest .unary) : Settles p (.unary op e) (t :: ts) rest floor := by
  have hStop : ¬ BindingPower.unary < p.grammar.power (p.current rest) := by
    rw [hp.grammar]
    intro hLt
    obtain ⟨op, hOp⟩ := exists_operator_of_lt hLt
    rw [power_of_is hOp] at hLt
    exact BindingPower.not_lt_of_lt op.power_lt_unary hLt
  refine settles_of_operand hp (.unary op hIs) ?_
  have hPos := h.length_pos
  rw [List.cons_append, operand_unary hIs, h.reads hStop]
  simp only [Step.build, Step.after, Option.map_some, List.append_nil, Step.mk.injEq, true_and,
    and_true]
  omega

theorem settles_group (hp : p.IsStandard) {opening close : Token}
    (hOpening : opening.is .openParen = true) (hClose : close.is .closeParen = true)
    (h : Settles p e ts (close :: rest) .lowest) :
    Settles p e (opening :: (ts ++ [close])) rest floor := by
  refine settles_of_operand hp (.group hOpening) ?_
  have hAll : opening :: (ts ++ [close]) ++ rest = opening :: (ts ++ close :: rest) := by simp
  rw [hAll, operand_group, closing_reads hp hClose (by intro op; cases op <;> decide) h]
  simp [Step.after, Nat.add_comm]

theorem settles_binary (hp : p.IsStandard) {op : BinaryOp} {l r : Expr} {tsL tsR : List Token}
    (hIs : t.is op.symbol = true) (hFloor : floor < op.power)
    (hLeft : Settles p l tsL (t :: (tsR ++ rest)) floor) (hRight : Settles p r tsR rest op.power)
    (hStop : ¬ op.power < p.grammar.power (p.current rest)) :
    Settles p (.binary op l r) (tsL ++ t :: tsR) rest floor := by
  obtain ⟨frontL, lastL, rfl, hReadL⟩ := hLeft
  have hReadR := hRight.reads hStop
  obtain ⟨frontR, lastR, rfl, -⟩ := hRight
  refine ⟨frontL ++ lastL :: t :: frontR, lastR, by simp, ?_⟩
  have hAll : frontL ++ [lastL] ++ t :: (frontR ++ [lastR]) ++ rest =
      frontL ++ [lastL] ++ t :: (frontR ++ [lastR] ++ rest) := by simp
  have hDrop : (frontR ++ [lastR] ++ rest).drop ((frontR ++ [lastR]).length - 1) =
      lastR :: rest := by simp
  rw [hAll, hReadL, operators_fold hp hIs hFloor, hReadR, hDrop]
  simp only [Step.after, combine, Option.bind_some, Option.map_some, List.nil_append,
    List.length_append, List.length_cons, List.length_nil, Step.mk.injEq, true_and, and_true]
  omega

/-! ## Conditionals -/

/-- A block with the place on its opening brace. -/
def ReadsBlock (p : Setting) (body : List Stmt) (ts rest : List Token) : Prop :=
  (∃ opening tail, ts = opening :: tail ∧ opening.is .openCurly = true) ∧
    block p (ts ++ rest) = ⟨body, ts.length - 1, []⟩

variable {word opening close : Token} {c : Expr} {body other : List Stmt} {tsBody : List Token}

/-- A conditional up to the end of its first block. -/
theorem operand_cond_reads (word : Token) (hp : p.IsStandard)
    (hOpening : opening.is .openParen = true) (hClose : close.is .closeParen = true)
    (hCondition : Settles p c (opening :: (ts ++ [close])) (tsBody ++ rest) .lowest)
    (hBody : ReadsBlock p body tsBody rest) :
    operand p (word :: opening :: (ts ++ close :: tsBody) ++ rest) .cond =
      (otherwise p ((tsBody ++ rest).drop (tsBody.length - 1)) (some c) body).after
        (ts.length + 2 + tsBody.length) [] := by
  obtain ⟨⟨curly, tail, rfl, hCurly⟩, hBlock⟩ := hBody
  have hAll : word :: opening :: (ts ++ close :: curly :: tail) ++ rest =
      word :: (opening :: (ts ++ [close]) ++ (curly :: tail ++ rest)) := by simp
  have hOpen : (p.current (opening :: (ts ++ [close]) ++ (curly :: tail ++ rest))).is
      .openParen = true := hOpening
  have hStop : ¬ BindingPower.lowest < p.grammar.power (p.current (curly :: tail ++ rest)) :=
    not_lt_of_is hp hCurly (by intro op; cases op <;> decide)
  have hDrop : (opening :: (ts ++ [close]) ++ (curly :: tail ++ rest)).drop
      ((opening :: (ts ++ [close])).length - 1) = close :: curly :: (tail ++ rest) := by
    simp
  rw [hAll, operand_cond hOpen, hCondition.reads hStop, hDrop, branches_cons hClose hCurly,
    ← List.cons_append, hBlock]
  simp only [Step.after, List.nil_append, List.length_cons, List.length_append, List.length_nil,
    Step.mk.injEq, true_and, and_true]
  omega

theorem settles_cond (hp : p.IsStandard) (hWord : word.is .ifWord = true)
    (hOpening : opening.is .openParen = true) (hClose : close.is .closeParen = true)
    (hCondition : Settles p c (opening :: (ts ++ [close])) (tsBody ++ rest) .lowest)
    (hBody : ReadsBlock p body tsBody rest) (hElse : ¬ (p.current rest).is .elseWord = true) :
    Settles p (.cond c body none) (word :: opening :: (ts ++ close :: tsBody)) rest floor := by
  refine settles_of_operand hp (.cond hWord) ?_
  have hRead := operand_cond_reads word hp hOpening hClose hCondition hBody
  obtain ⟨⟨curly, tail, rfl, -⟩, -⟩ := hBody
  have hNext : ¬ (p.next ((curly :: tail ++ rest).drop ((curly :: tail).length - 1))).is
      .elseWord = true := by
    have hPos : 0 < (curly :: tail).length := Nat.succ_pos _
    rw [next_drop_last p _ hPos]
    exact hElse
  rw [hRead, otherwise_none hNext]
  simp only [Step.after, Step.stay, Option.map_some, List.nil_append, List.length_cons,
    List.length_append, Step.mk.injEq, true_and, and_true]
  omega

theorem settles_condElse (hp : p.IsStandard) {wordElse : Token} {tsOther : List Token}
    (hWord : word.is .ifWord = true) (hOpening : opening.is .openParen = true)
    (hClose : close.is .closeParen = true) (hElse : wordElse.is .elseWord = true)
    (hCondition : Settles p c (opening :: (ts ++ [close]))
      (tsBody ++ (wordElse :: (tsOther ++ rest))) .lowest)
    (hBody : ReadsBlock p body tsBody (wordElse :: (tsOther ++ rest)))
    (hOther : ReadsBlock p other tsOther rest) :
    Settles p (.cond c body (some other))
      (word :: opening :: (ts ++ close :: (tsBody ++ wordElse :: tsOther))) rest floor := by
  refine settles_of_operand hp (.cond hWord) ?_
  have hRead := operand_cond_reads word hp hOpening hClose hCondition hBody
  obtain ⟨⟨curly, tail, rfl, -⟩, -⟩ := hBody
  obtain ⟨⟨curly', tail', rfl, hCurly'⟩, hBlock⟩ := hOther
  obtain ⟨last, hLast⟩ : ∃ last,
      (curly :: tail ++ wordElse :: (curly' :: tail' ++ rest)).drop ((curly :: tail).length - 1) =
        last :: wordElse :: curly' :: (tail' ++ rest) := by
    obtain ⟨front, last, hSplit⟩ : ∃ front last, curly :: tail = front ++ [last] :=
      ⟨_, _, (List.dropLast_concat_getLast (List.cons_ne_nil curly tail)).symm⟩
    exact ⟨last, by simp [hSplit]⟩
  have hAll : word :: opening :: (ts ++ close :: (curly :: tail ++ wordElse :: curly' :: tail')) ++
      rest = word :: opening :: (ts ++ close :: (curly :: tail)) ++
        wordElse :: (curly' :: tail' ++ rest) := by simp
  rw [hAll, hRead, hLast, otherwise_some hElse hCurly', ← List.cons_append, hBlock]
  simp only [Step.after, Option.map_some, List.nil_append, List.length_cons,
    List.length_append, Step.mk.injEq, true_and, and_true]
  omega

/-! ## Statements -/

theorem readsBlock (hOpening : opening.is .openCurly = true)
    (hBody : statements p (ts ++ close :: rest) true = ⟨body, ts.length, []⟩) :
    ReadsBlock p body (opening :: (ts ++ [close])) rest := by
  refine ⟨⟨_, _, rfl, hOpening⟩, ?_⟩
  have hAll : opening :: (ts ++ [close]) ++ rest = opening :: (ts ++ close :: rest) := by simp
  rw [hAll, block_cons, hBody]
  simp [Step.after, Nat.add_comm]

/-- One statement and those behind it. -/
theorem statements_reads_cons {inBlock : Bool} {s : Stmt} (hBegins : Begins t)
    (hOne : statement p (t :: ts ++ (tsBody ++ rest)) = ⟨some s, ts.length, []⟩)
    (hRest : statements p (tsBody ++ rest) inBlock = ⟨body, tsBody.length, []⟩) :
    statements p (t :: ts ++ tsBody ++ rest) inBlock =
      ⟨s :: body, (t :: ts ++ tsBody).length, []⟩ := by
  have hEnds : ¬ Ends inBlock (t :: (ts ++ (tsBody ++ rest))) := by
    intro hEnds
    rcases hEnds t rfl with hEnd | ⟨-, hClose⟩
    · exact hBegins.not_isEnd hEnd
    · exact hBegins.not_is (by decide) hClose
  rw [List.cons_append] at hOne
  rw [List.append_assoc, List.cons_append, statements_cons hEnds, hOne, List.drop_left, hRest]
  simp only [Option.toList_some, List.singleton_append, List.nil_append, List.length_cons,
    List.length_append]

theorem statement_reads_varDecl (hp : p.IsStandard) {name sign : Token}
    (hWord : word.is .varWord = true) (hName : name.tokenClass = .identifier)
    (hSign : sign.is .assignment = true) (hClose : close.is .semicolon = true)
    (h : Settles p e ts (close :: rest) .lowest) :
    statement p (word :: name :: sign :: (ts ++ [close]) ++ rest) =
      ⟨some (.varDecl name.lexeme (some e)), ts.length + 3, []⟩ := by
  have hAll : word :: name :: sign :: (ts ++ [close]) ++ rest =
      word :: name :: sign :: (ts ++ close :: rest) := by simp
  rw [hAll, statement_varDecl hp hWord, varDecl_some hName hSign,
    closing_reads hp hClose (by intro op; cases op <;> decide) h]
  simp [Step.after, Step.build, Nat.add_comm]

theorem statement_reads_ret (hp : p.IsStandard) (hWord : word.is .returnWord = true)
    (hClose : close.is .semicolon = true) (h : Settles p e ts (close :: rest) .lowest) :
    statement p (word :: (ts ++ [close]) ++ rest) = ⟨some (.ret e), ts.length + 1, []⟩ := by
  have hAll : word :: (ts ++ [close]) ++ rest = word :: (ts ++ close :: rest) := by simp
  rw [hAll, statement_ret hp hWord,
    closing_reads hp hClose (by intro op; cases op <;> decide) h]
  simp [Step.after, Step.build, Nat.add_comm]

/-- An expression as a statement, whether or not a semicolon follows. -/
theorem statement_reads_expr (hp : p.IsStandard) {rule : OperandRule} (hOpening : Opening t rule)
    (h : Settles p e (t :: ts) rest .lowest)
    (hStop : ¬ BindingPower.lowest < p.grammar.power (p.current rest)) :
    statement p (t :: ts ++ rest) =
      ⟨some (.expr e), ts.length + (if (p.current rest).is .semicolon then 1 else 0), []⟩ := by
  have hPos : 0 < (t :: ts).length := Nat.succ_pos _
  have hVar : ¬ (p.current (t :: ts ++ rest)).is .varWord = true := hOpening.not_is (by decide)
  have hReturn : ¬ (p.current (t :: ts ++ rest)).is .returnWord = true :=
    hOpening.not_is (by decide)
  rw [statement_expr hp hVar hReturn, expressionStmt_eq, h.reads hStop]
  dsimp only
  rw [next_drop_last p rest hPos]
  rfl

/-! ## What may follow -/

/-- The floor and the tokens behind a rendering leave the rendering as it is. -/
structure Fits (p : Setting) (top : Option BindingPower) (dangling : Bool) (floor : BindingPower)
    (rest : List Token) : Prop where
  floor : ∀ k ∈ top, floor < k
  operator : ∀ k ∈ top, ¬ k < p.grammar.power (p.current rest)
  elseWord : dangling = true → ¬ (p.current rest).is .elseWord = true

variable {top : Option BindingPower} {dangling : Bool}

theorem fits_of_none (h : dangling = true → ¬ (p.current rest).is .elseWord = true) :
    Fits p none dangling floor rest := by
  refine ⟨?_, ?_, h⟩
  · rintro _ ⟨⟩
  · rintro _ ⟨⟩

theorem lowest_lt_top (h : Renders e top dangling ts) : ∀ k ∈ top, BindingPower.lowest < k := by
  cases h with
  | @binary _ op =>
    intro k hK
    cases hK
    exact op.lowest_lt_power
  | _ => nofun

theorem fits_of_not_operator (hp : p.IsStandard) (h : Renders e top dangling ts)
    (hOperator : ∀ op : BinaryOp, ¬ (p.current rest).is op.symbol = true)
    (hElse : ¬ (p.current rest).is .elseWord = true) : Fits p top dangling .lowest rest := by
  refine ⟨lowest_lt_top h, fun k _ => ?_, fun _ => hElse⟩
  rw [hp.grammar, power_of_not_operator hOperator]
  exact BindingPower.not_lt_lowest k

theorem fits_of_close (hp : p.IsStandard) (h : Renders e top dangling ts) {s : Symbol}
    (hClose : close.is s = true) (hs : s = .closeParen ∨ s = .semicolon) :
    Fits p top dangling .lowest (close :: rest) := by
  refine fits_of_not_operator hp h (fun op hIs => ?_) (fun hIs => ?_)
  · have hSymbol := Token.is_unique hClose hIs
    subst hSymbol
    cases op <;> simp [BinaryOp.symbol] at hs
  · have hSymbol := Token.is_unique hClose hIs
    subst hSymbol
    simp at hs

/-! ## The induction -/

mutual

/-- Reading a rendering of an expression comes to the loop behind it, with the expression as the
left operand. -/
theorem settles_of_renders (hp : p.IsStandard) {e : Expr} {top : Option BindingPower}
    {dangling : Bool} {ts : List Token} (h : Renders e top dangling ts) {rest : List Token}
    {floor : BindingPower} (hFits : Fits p top dangling floor rest) :
    Settles p e ts rest floor := by
  match h with
  | .int hClass hValue =>
    refine settles_of_operand hp (.integer hClass) ?_
    rw [List.cons_append, operand_integer, integer, hValue]
    rfl
  | .bool hClass hText =>
    refine settles_of_operand hp (.truth hClass) ?_
    rw [List.cons_append, operand_truth, truth, Truth.ofText?_eq_some_iff.2 hText]
    rfl
  | .name hClass rfl =>
    refine settles_of_operand hp (.name hClass) ?_
    rw [List.cons_append, operand_name]
    rfl
  | .unary hIs hOperand =>
    exact settles_unary hp hIs (settles_of_renders hp hOperand (fits_of_none hFits.elseWord))
  | @Renders.binary _ op _ _ _ _ _ _ _ _ hIs hLeft hRight hTopL hTopR =>
    have hFloor : floor < op.power := hFits.floor _ rfl
    have hStop : ¬ op.power < p.grammar.power (p.current rest) := hFits.operator _ rfl
    refine settles_binary hp hIs hFloor (settles_of_renders hp hLeft ⟨?_, ?_, ?_⟩)
      (settles_of_renders hp hRight ⟨hTopR, ?_, hFits.elseWord⟩) hStop
    · exact fun k hk => BindingPower.lt_of_lt_of_not_lt hFloor (hTopL k hk)
    · intro k hk
      rw [Setting.current_cons, hp.grammar, power_of_is hIs]
      exact hTopL k hk
    · intro _ hIsElse
      have hSymbol := Token.is_unique hIs hIsElse
      cases op <;> cases hSymbol
    · exact fun k hk hLt => hStop (BindingPower.lt_trans (hTopR k hk) hLt)
  | .group hOpening hClose hInner =>
    exact settles_group hp hOpening hClose
      (settles_of_renders hp hInner (fits_of_close hp hInner hClose (.inl rfl)))
  | .cond hWord hOpening hClose hCondition hBody =>
    exact settles_cond hp hWord hOpening hClose
      (settles_group hp hOpening hClose
        (settles_of_renders hp hCondition (fits_of_close hp hCondition hClose (.inl rfl))))
      (readsBlock_of_renders hp hBody) (hFits.elseWord rfl)
  | .condElse hWord hOpening hClose hElse hCondition hBody hOther =>
    exact settles_condElse hp hWord hOpening hClose hElse
      (settles_group hp hOpening hClose
        (settles_of_renders hp hCondition (fits_of_close hp hCondition hClose (.inl rfl))))
      (readsBlock_of_renders hp hBody) (readsBlock_of_renders hp hOther)

theorem readsBlock_of_renders (hp : p.IsStandard) {body : List Stmt} {ts : List Token}
    (h : RendersBlock body ts) {rest : List Token} : ReadsBlock p body ts rest := by
  match h with
  | .braced hOpening hClose hBody =>
    refine readsBlock hOpening (statements_of_renders hp hBody ?_)
    intro t hT
    cases hT
    exact .inr ⟨rfl, hClose⟩

theorem statements_of_renders (hp : p.IsStandard) {body : List Stmt} {ts : List Token}
    (h : RendersBody body ts) {rest : List Token} {inBlock : Bool} (hEnds : Ends inBlock rest) :
    statements p (ts ++ rest) inBlock = ⟨body, ts.length, []⟩ := by
  match h with
  | .nil => exact statements_of_ends hEnds
  | .cons hStmt hBody hDash =>
    have hRest := statements_of_renders hp hBody hEnds
    have hOne := statement_of_renders hp hStmt fun hEnded =>
      quiet_of_body hp hBody hEnds (hDash hEnded)
    obtain ⟨t, tail, rfl, hBegins⟩ := hStmt.exists_begins
    exact statements_reads_cons hBegins hOne hRest

theorem statement_of_renders (hp : p.IsStandard) {s : Stmt} {ended : Bool} {ts : List Token}
    (h : RendersStmt s ended ts) {rest : List Token} (hQuiet : ended = false → Quiet p rest) :
    statement p (ts ++ rest) = ⟨some s, ts.length - 1, []⟩ := by
  match h with
  | .declaration hWord hName rfl hClose =>
    simp only [List.cons_append, List.nil_append]
    rw [statement_varDecl hp hWord, varDecl_none hName hClose]
    rfl
  | .varDecl hWord hName rfl hSign hClose hExpr =>
    rw [statement_reads_varDecl hp hWord hName hSign hClose
      (settles_of_renders hp hExpr (fits_of_close hp hExpr hClose (.inr rfl)))]
    simp
  | .ret hWord hClose hExpr =>
    rw [statement_reads_ret hp hWord hClose
      (settles_of_renders hp hExpr (fits_of_close hp hExpr hClose (.inr rfl)))]
    simp
  | .expr hExpr =>
    have hNext := hQuiet rfl
    have hSettles := settles_of_renders hp hExpr
      (fits_of_not_operator hp hExpr hNext.operator hNext.elseWord)
    obtain ⟨t, tail, rule, rfl, hOpening⟩ := hExpr.exists_opening
    rw [statement_reads_expr hp hOpening hSettles (hNext.not_lt hp), if_neg hNext.semicolon]
    rfl
  | .exprEnded hClose hExpr =>
    have hFits : Fits p _ _ .lowest (_ :: rest) := fits_of_close hp hExpr hClose (.inr rfl)
    have hSettles := settles_of_renders hp hExpr hFits
    obtain ⟨t, tail, rule, rfl, hOpening⟩ := hExpr.exists_opening
    rw [List.append_assoc, List.singleton_append, statement_reads_expr hp hOpening hSettles
      (not_lt_of_is hp hClose (by intro op; cases op <;> decide)), Setting.current_cons,
      if_pos hClose]
    simp

end

/-! ## Renderings within a token list -/

/-- A rendering within a token list is read back: from its first token on, with a floor that lies
below its operator on top, the expression is found without a report, and the place is then on the
last token of the rendering. The token behind it must not bind more tightly than the floor, and must
be no `else` where the rendering ends with a conditional without a second block. -/
theorem expression_of_renders {before ts rest : List Token} {e : Expr}
    {top : Option BindingPower} {dangling : Bool} {floor : BindingPower}
    (hRenders : Renders e top dangling ts) (hFloor : ∀ k ∈ top, floor < k)
    (hNext : ¬ floor < Grammar.standard.power
      ((Setting.ofTokens (before ++ ts ++ rest)).current rest))
    (hElse : dangling = true →
      ¬ ((Setting.ofTokens (before ++ ts ++ rest)).current rest).is .elseWord = true) :
    expression (.ofTokens (before ++ ts ++ rest)) ((before ++ ts ++ rest).drop before.length)
      floor = ⟨some e, ts.length - 1, []⟩ := by
  have hp := isStandard_ofTokens (before ++ ts ++ rest)
  generalize Setting.ofTokens (before ++ ts ++ rest) = p at *
  have hStop : ¬ floor < p.grammar.power (p.current rest) := by
    rw [hp.grammar]
    exact hNext
  have hFits : Fits p top dangling floor rest := by
    refine ⟨hFloor, fun k hk hLt => hStop ?_, hElse⟩
    exact BindingPower.lt_trans (hFloor k hk) hLt
  rw [List.append_assoc, List.drop_left]
  exact (settles_of_renders hp hRenders hFits).reads hStop

/-- A token that stands for the symbol. -/
def mark (s : Symbol) : Token :=
  ⟨s.tokenClass, s.spelling, .null⟩

/-- The tokens of `-a * (b + 1)`. -/
def product : List Token :=
  [mark .dash, ⟨.identifier, "a", .null⟩, mark .star, mark .openParen, ⟨.identifier, "b", .null⟩,
    mark .plus, ⟨.number, "1", .null⟩, mark .closeParen]

/-- The tree of `product`. -/
def productTree : Expr :=
  .binary .multiply (.unary .negate (.name "a")) (.binary .plus (.name "b") (.int 1))

theorem renders_product : Renders productTree (some .product) false product := by
  have hLeft : Renders (.unary .negate (.name "a")) none false
      [mark .dash, ⟨.identifier, "a", .null⟩] := .unary (by decide) (.name rfl rfl)
  have hSum : Renders (.binary .plus (.name "b") (.int 1)) (some .sum) false
      ([⟨.identifier, "b", .null⟩] ++ mark .plus :: [⟨.number, "1", .null⟩]) :=
    .binary (by decide) (.name rfl rfl) (.int rfl (by decide)) nofun nofun
  have hRight : Renders (.binary .plus (.name "b") (.int 1)) none false
      (mark .openParen :: (([⟨.identifier, "b", .null⟩] ++ mark .plus ::
        [⟨.number, "1", .null⟩]) ++ [mark .closeParen])) := .group (by decide) (by decide) hSum
  have hStar : (mark .star).is BinaryOp.multiply.symbol = true := by decide
  exact .binary hStar hLeft hRight nofun nofun

/-- In `return -a * (b + 1) + c;` the product ends before the second `+`. -/
theorem expression_of_renders_product :
    Renders productTree (some .product) false product ∧
      expression (.ofTokens ([mark .returnWord] ++ product ++ [mark .plus]))
        (([mark .returnWord] ++ product ++ [mark .plus]).drop 1) .sum =
        ⟨some productTree, 7, []⟩ := by
  refine ⟨renders_product, expression_of_renders renders_product ?_ ?_ nofun⟩
  · intro k hK
    cases hK
    decide
  · decide

end Frontend.Parse
