import Frontend.Proofs.Grammar.Standard

/-!
# The parsing functions under the grammar of the language

Each parsing function looks rules up in the tables of its setting. Under the grammar of the language
most branches of a look-up cannot be taken, and those that are left are given here, one equation for
each. Nothing behind this module unfolds a parsing function.

* `Setting.IsStandard`, `Setting.ofTokens`: the settings that a parse of a token list goes by.
* `expression_of_opening`, `operators_fold`, `operators_stop`: an operand and the operators behind
  it.
* `operand_unary`, `operand_group`, `operand_cond`: operands of more than one token.
* `builtOrFault_integer`, `builtOrFault_truth`: literals.
* `operand_group_eq`, `branches_eq`, `otherwise_eq`, `block_eq`, `varDecl_eq`, `ret_eq`,
  `expressionStmt_eq`: what a function does that is called at a token where its construct need not
  begin.
* `statements_cons`, `statement_varDecl`, `statement_ret`, `statement_expr`: statements.
-/

namespace Frontend.Parse

/-- The grammar of the language, and behind the list a mark of the end of the input. -/
structure Setting.IsStandard (p : Setting) : Prop where
  grammar : p.grammar = .standard
  endMark : p.endMark.isEnd = true

/-- The setting that a token list is parsed by. -/
def Setting.ofTokens (tokens : List Token) : Setting :=
  ⟨.standard, Program.endMark tokens⟩

theorem isStandard_ofTokens (tokens : List Token) : (Setting.ofTokens tokens).IsStandard := by
  refine ⟨rfl, ?_⟩
  unfold Setting.ofTokens Program.endMark
  dsimp only
  split
  · split
    · assumption
    · rfl
  · rfl

/-- A list that ends with a mark of the end is parsed with this mark behind it. -/
theorem endMark_append {written : List Token} {last : Token} (h : last.isEnd = true) :
    (Setting.ofTokens (written ++ [last])).endMark = last := by
  show Program.endMark (written ++ [last]) = last
  unfold Program.endMark
  rw [List.getLast?_concat]
  exact if_pos h

/-- Behind the tokens there is nothing but the mark of the end, written or not. -/
theorem current_drop_replicate (p : Setting) (ts : List Token) (copies i : Nat) :
    p.current ((ts ++ List.replicate copies p.endMark).drop i) = ts[i]?.getD p.endMark := by
  rw [Setting.current, List.headD_eq_head?_getD, List.head?_drop]
  by_cases hInside : i < ts.length
  · rw [List.getElem?_append_left hInside]
  · rw [List.getElem?_append_right (Nat.le_of_not_lt hInside),
      List.getElem?_eq_none (Nat.le_of_not_lt hInside), List.getElem?_replicate]
    split <;> rfl

variable {p : Setting} {floor : BindingPower} {left : Option Expr} {t : Token}
  {ts rest : List Token}

namespace Setting.IsStandard

/-- A token that stands for a symbol is no end of the list. -/
theorem exists_cons (hp : p.IsStandard) {s : Symbol} (h : (p.current ts).is s = true) :
    ∃ t rest, ts = t :: rest ∧ t.is s = true := by
  cases ts with
  | nil => exact absurd h (Token.not_is_of_isEnd hp.endMark s)
  | cons t rest => exact ⟨t, rest, rfl, h⟩

theorem exists_cons_next (hp : p.IsStandard) {s : Symbol} (h : (p.next ts).is s = true) :
    ∃ head t rest, ts = head :: t :: rest ∧ t.is s = true := by
  cases ts with
  | nil => exact absurd h (Token.not_is_of_isEnd hp.endMark s)
  | cons head tail =>
    obtain ⟨t, rest, rfl, hIs⟩ := hp.exists_cons h
    exact ⟨head, t, rest, rfl, hIs⟩

theorem exists_cons_next_next (hp : p.IsStandard) {s : Symbol}
    (h : (p.next (ts.drop 1)).is s = true) :
    ∃ head second t rest, ts = head :: second :: t :: rest ∧ t.is s = true := by
  cases ts with
  | nil => exact absurd h (Token.not_is_of_isEnd hp.endMark s)
  | cons head tail =>
    obtain ⟨second, t, rest, rfl, hIs⟩ := hp.exists_cons_next h
    exact ⟨head, second, t, rest, rfl, hIs⟩

end Setting.IsStandard

/-! ## Expressions -/

theorem expression_of_noOperand (hp : p.IsStandard)
    (h : ∀ rule, ¬ Opening (p.current ts) rule) :
    expression p ts floor = fail (p.current ts) (.noOperand (p.current ts).describe) := by
  have hNone : p.grammar.operands.get? (p.current ts).key = none := by
    rw [hp.grammar]
    cases hRule : Grammar.standard.operands.get? (p.current ts).key with
    | none => rfl
    | some rule => exact absurd (opening_iff.1 hRule) (h rule)
  cases ts with
  | nil =>
    rw [Setting.current_nil] at hNone ⊢
    rw [expression, operandAtEnd, hNone]
  | cons t rest =>
    rw [Setting.current_cons] at hNone ⊢
    rw [expression]
    simp only [hNone]

theorem expression_of_opening (hp : p.IsStandard) {rule : OperandRule} (h : Opening t rule) :
    expression p (t :: rest) floor =
      (operators p ((t :: rest).drop (operand p (t :: rest) rule).moved) floor
        (operand p (t :: rest) rule).value).after
        (operand p (t :: rest) rule).moved (operand p (t :: rest) rule).errors := by
  have hRule : p.grammar.operands.get? t.key = some rule := by
    rw [hp.grammar]
    exact opening_iff.2 h
  rw [expression]
  simp only [hRule]

/-- The loop stops before a token that does not bind more tightly than the floor. -/
theorem operators_stop (h : ¬ floor < p.grammar.power (p.next ts)) :
    operators p ts floor left = .stay left := by
  match ts with
  | [] => rw [operators]
  | [_] => rw [operators]
  | _ :: op :: rest =>
    rw [operators, if_neg]
    rintro ⟨-, hLt⟩
    exact h hLt

/-- The tree that an operator builds from its two sides. -/
def combine (op : BinaryOp) (left right : Option Expr) : Option Expr :=
  left.bind fun l => right.map fun r => .binary op l r

theorem combine_eq_some_iff {op : BinaryOp} {left right : Option Expr} {v : Expr} :
    combine op left right = some v ↔
      ∃ l r, left = some l ∧ right = some r ∧ v = .binary op l r := by
  cases left <;> cases right <;> simp [combine, eq_comm]

theorem binary_of_is {op : BinaryOp} (h : t.is op.symbol = true) :
    binary p (t :: rest) left floor =
      ⟨combine op left (expression p rest floor).value, 1 + (expression p rest floor).moved,
        (expression p rest floor).errors⟩ := by
  rw [binary]
  simp only [binaryOp_of_is h]
  rfl

/-- An operator between two operands, called where none stands. -/
theorem binary_none (h : ∀ op : BinaryOp, ¬ (p.current ts).is op.symbol = true) :
    binary p ts left floor =
      fail (p.current ts) (.unexpectedToken (p.current ts).describe) := by
  have hNone : (p.current ts).symbol?.bind BinaryOp.ofSymbol? = none := by
    cases hOp : (p.current ts).symbol?.bind BinaryOp.ofSymbol? with
    | none => rfl
    | some op =>
      obtain ⟨s, hSymbol, hSpelled⟩ := Option.bind_eq_some_iff.1 hOp
      rw [BinaryOp.ofSymbol?_eq_some_iff.1 hSpelled] at hSymbol
      exact absurd (Token.is_iff.2 hSymbol) (h op)
  cases ts with
  | nil => rw [binary, Setting.current_nil]
  | cons t rest =>
    rw [Setting.current_cons] at hNone
    rw [binary, Setting.current_cons]
    simp only [hNone]

theorem operators_fold (hp : p.IsStandard) {head : Token} {op : BinaryOp}
    (h : t.is op.symbol = true) (hFloor : floor < op.power) :
    operators p (head :: t :: rest) floor left =
      (operators p (rest.drop (expression p rest op.power).moved) floor
        (combine op left (expression p rest op.power).value)).after
        (2 + (expression p rest op.power).moved) (expression p rest op.power).errors := by
  have hPower : p.grammar.power t = op.power := by rw [hp.grammar, power_of_is h]
  have hRule : p.grammar.operators.get? t.key = some .binary := by
    rw [hp.grammar, operatorRule_of_is h]
  have hSemicolon : ¬ t.is .semicolon = true := by
    intro hIs
    have hSymbol := Token.is_unique h hIs
    cases op <;> cases hSymbol
  rw [operators, hPower, if_pos ⟨hSemicolon, hFloor⟩]
  simp only [hRule, binary_of_is h]
  rw [Nat.add_comm 1, List.drop_succ_cons]
  simp only [Step.after, Step.mk.injEq, true_and, and_true]
  omega

/-! ## Operands -/

/-- What becomes of a literal: it is built, or a fault is reported at its token. -/
def BuiltOrFault (t : Token) (s : Step (Option Expr)) : Prop :=
  (∃ e, s = .stay (some e)) ∨ ∃ f, s = fail t f

theorem builtOrFault_integer (t : Token) : BuiltOrFault t (integer t) := by
  unfold integer
  split
  · exact Or.inl ⟨_, rfl⟩
  · exact Or.inr ⟨_, rfl⟩

theorem builtOrFault_truth (t : Token) : BuiltOrFault t (truth t) := by
  unfold truth
  split
  · exact Or.inl ⟨_, rfl⟩
  · exact Or.inr ⟨_, rfl⟩

theorem BuiltOrFault.moved {s : Step (Option Expr)} (h : BuiltOrFault t s) : s.moved = 0 := by
  rcases h with ⟨e, rfl⟩ | ⟨f, rfl⟩
  · rfl
  · rfl

theorem operand_eq (p : Setting) (ts : List Token) (rule : OperandRule) :
    operand p ts rule =
      match rule with
      | .integer => integer (p.current ts)
      | .truth => truth (p.current ts)
      | .name => name (p.current ts)
      | .unary => unary p ts
      | .group => group p ts
      | .cond => cond p ts := by
  cases rule <;> rw [operand]

theorem operand_integer : operand p (t :: rest) .integer = integer t :=
  operand_eq p (t :: rest) .integer

theorem operand_truth : operand p (t :: rest) .truth = truth t :=
  operand_eq p (t :: rest) .truth

theorem operand_name : operand p (t :: rest) .name = name t :=
  operand_eq p (t :: rest) .name

theorem operand_unary {op : UnaryOp} (h : t.is op.symbol = true) :
    operand p (t :: rest) .unary = ((expression p rest .unary).build (.unary op)).after 1 [] := by
  rw [operand_eq, unary]
  simp only [unaryOp_of_is h]

theorem expression_nil : expression p [] floor = operandAtEnd p := by
  rw [expression]

theorem operand_group_eq :
    operand p ts .group =
      (closing p .closeParen (.missingClosingParen "grouped expression") (ts.drop 1)
        (expression p (ts.drop 1) .lowest)).after 1 [] := by
  rw [operand_eq]
  cases ts with
  | nil => rw [group, List.drop_nil, expression_nil]
  | cons t rest => rw [group, List.drop_succ_cons, List.drop_zero]

theorem operand_group :
    operand p (t :: rest) .group =
      (closing p .closeParen (.missingClosingParen "grouped expression") rest
        (expression p rest .lowest)).after 1 [] :=
  operand_group_eq

/-- An operator in front of its operand, called where none stands. -/
theorem operand_unary_none (h : ∀ op : UnaryOp, ¬ (p.current ts).is op.symbol = true) :
    operand p ts .unary = fail (p.current ts) (.noOperand (p.current ts).describe) := by
  have hNone : (p.current ts).symbol?.bind UnaryOp.ofSymbol? = none := by
    cases hOp : (p.current ts).symbol?.bind UnaryOp.ofSymbol? with
    | none => rfl
    | some op =>
      obtain ⟨s, hSymbol, hSpelled⟩ := Option.bind_eq_some_iff.1 hOp
      rw [UnaryOp.ofSymbol?_eq_some_iff.1 hSpelled] at hSymbol
      exact absurd (Token.is_iff.2 hSymbol) (h op)
  rw [operand_eq]
  cases ts with
  | nil => rw [unary, Setting.current_nil]
  | cons t rest =>
    rw [Setting.current_cons] at hNone
    rw [unary, Setting.current_cons]
    simp only [hNone]

theorem operand_cond (h : (p.current rest).is .openParen = true) :
    operand p (t :: rest) .cond =
      (branches p (rest.drop (expression p rest .lowest).moved)
        (expression p rest .lowest).value).after
        (1 + (expression p rest .lowest).moved) (expression p rest .lowest).errors := by
  rw [operand_eq, cond]
  simp only [h, if_true]

theorem operand_cond_unopened (h : ¬ (p.next ts).is .openParen = true) :
    operand p ts .cond =
      fail (p.next ts) (.missingOpeningParen "if expression" (p.next ts).describe) := by
  rw [operand_eq]
  cases ts with
  | nil => rw [cond, Setting.next_nil]
  | cons t rest =>
    rw [Setting.next_cons] at h
    rw [cond, Setting.next_cons]
    simp only [h, if_false, Bool.false_eq_true]

variable {close opening : Token} {condition : Option Expr} {body : List Stmt}

theorem branches_eq : branches p ts condition =
    if (p.current ts).is .closeParen then
      if (p.next ts).is .openCurly then
        (otherwise p (ts.drop (1 + (block p (ts.drop 1)).moved)) condition
          (block p (ts.drop 1)).value).after
          (1 + (block p (ts.drop 1)).moved) (block p (ts.drop 1)).errors
      else (fail (p.next ts)
        (.missingOpeningCurly "if expression" (p.next ts).describe)).after 1 []
    else fail (p.current ts) (.missingClosingParen "if expression" (p.current ts).describe) := by
  rw [branches]

theorem branches_cons (hClose : close.is .closeParen = true)
    (hOpening : opening.is .openCurly = true) :
    branches p (close :: opening :: rest) condition =
      (otherwise p ((opening :: rest).drop (block p (opening :: rest)).moved) condition
        (block p (opening :: rest)).value).after
        (1 + (block p (opening :: rest)).moved) (block p (opening :: rest)).errors := by
  rw [branches_eq]
  simp only [Setting.current_cons, Setting.next_cons, hClose, hOpening, if_true,
    List.drop_succ_cons, List.drop_zero, Nat.add_comm 1]

theorem branches_unclosed (h : ¬ (p.current ts).is .closeParen = true) :
    branches p ts condition =
      fail (p.current ts) (.missingClosingParen "if expression" (p.current ts).describe) := by
  rw [branches_eq, if_neg h]

theorem branches_unopened (hClose : (p.current ts).is .closeParen = true)
    (hOpening : ¬ (p.next ts).is .openCurly = true) :
    branches p ts condition =
      (fail (p.next ts)
        (.missingOpeningCurly "if expression" (p.next ts).describe)).after 1 [] := by
  rw [branches_eq, if_pos hClose, if_neg hOpening]

theorem otherwise_eq : otherwise p ts condition body =
    if (p.next ts).is .elseWord then
      if (p.next (ts.drop 1)).is .openCurly then
        Step.after ⟨condition.map fun c => .cond c body (some (block p (ts.drop 2)).value),
          (block p (ts.drop 2)).moved, (block p (ts.drop 2)).errors⟩ 2 []
      else (fail (p.next (ts.drop 1))
        (.missingOpeningCurly "else expression" (p.next (ts.drop 1)).describe)).after 1 []
    else .stay (condition.map fun c => .cond c body none) := by
  rw [otherwise]

theorem otherwise_none (h : ¬ (p.next ts).is .elseWord = true) :
    otherwise p ts condition body = .stay (condition.map fun c => .cond c body none) := by
  rw [otherwise_eq, if_neg h]

theorem otherwise_some {last word : Token} (hElse : word.is .elseWord = true)
    (hOpening : opening.is .openCurly = true) :
    otherwise p (last :: word :: opening :: rest) condition body =
      ⟨condition.map fun c => .cond c body (some (block p (opening :: rest)).value),
        2 + (block p (opening :: rest)).moved, (block p (opening :: rest)).errors⟩ := by
  rw [otherwise_eq]
  simp only [Setting.next_cons, Setting.current_cons, hElse, hOpening, if_true,
    List.drop_succ_cons, List.drop_zero]
  rfl

theorem otherwise_unopened (hElse : (p.next ts).is .elseWord = true)
    (hOpening : ¬ (p.next (ts.drop 1)).is .openCurly = true) :
    otherwise p ts condition body =
      (fail (p.next (ts.drop 1))
        (.missingOpeningCurly "else expression" (p.next (ts.drop 1)).describe)).after 1 [] := by
  rw [otherwise_eq, if_pos hElse, if_neg hOpening]

/-! ## Statements -/

theorem block_eq : block p ts = (statements p (ts.drop 1) true).after 1 [] := by
  rw [block]

theorem block_cons : block p (t :: rest) = (statements p rest true).after 1 [] :=
  block_eq

/-- Whether the statements end before the tokens: at the end of the input, and within a block at a
closing brace. -/
def Ends (inBlock : Bool) (ts : List Token) : Prop :=
  ∀ t ∈ ts.head?, t.isEnd = true ∨ inBlock = true ∧ t.is .closeCurly = true

theorem Ends.behind {inBlock : Bool} {k m : Nat} (h : Ends inBlock ((rest.drop k).drop m)) :
    Ends inBlock ((t :: rest).drop (k + 1 + m)) := by
  rwa [Nat.add_right_comm, List.drop_succ_cons, ← List.drop_drop]

theorem statements_of_ends {inBlock : Bool} (h : Ends inBlock ts) :
    statements p ts inBlock = .stay [] := by
  cases ts with
  | nil => rw [statements]
  | cons t rest =>
    rw [statements, if_pos]
    exact h t rfl

theorem statements_cons {inBlock : Bool} (h : ¬ Ends inBlock (t :: rest)) :
    statements p (t :: rest) inBlock =
      ⟨(statement p (t :: rest)).value.toList ++
          (statements p (rest.drop (statement p (t :: rest)).moved) inBlock).value,
        (statement p (t :: rest)).moved + 1 +
          (statements p (rest.drop (statement p (t :: rest)).moved) inBlock).moved,
        (statement p (t :: rest)).errors ++
          (statements p (rest.drop (statement p (t :: rest)).moved) inBlock).errors⟩ := by
  rw [statements, if_neg]
  · rfl
  · intro hEnd
    apply h
    intro t' ht'
    cases ht'
    exact hEnd

/-- Two words begin a statement of their own. -/
theorem statement_eq (hp : p.IsStandard) : statement p ts =
    if (p.current ts).is .varWord then varDecl p ts
    else if (p.current ts).is .returnWord then ret p ts
    else expressionStmt p ts := by
  rw [statement, hp.grammar, statementRule_eq]
  by_cases hVar : (p.current ts).is .varWord = true
  · simp only [hVar, if_true]
  · by_cases hReturn : (p.current ts).is .returnWord = true
    · simp only [hVar, hReturn, if_true, if_false, Bool.false_eq_true]
    · simp only [hVar, hReturn, if_false, Bool.false_eq_true]

theorem statement_expr (hp : p.IsStandard) (hVar : ¬ (p.current ts).is .varWord = true)
    (hReturn : ¬ (p.current ts).is .returnWord = true) :
    statement p ts = expressionStmt p ts := by
  rw [statement_eq hp, if_neg hVar, if_neg hReturn]

theorem expressionStmt_eq : expressionStmt p ts =
    ⟨(expression p ts .lowest).value.map .expr,
      (expression p ts .lowest).moved +
        (if (p.next (ts.drop (expression p ts .lowest).moved)).is .semicolon then 1 else 0),
      (expression p ts .lowest).errors⟩ := by
  rw [expressionStmt]

theorem ret_eq : ret p ts =
    ((closing p .semicolon (.missingSemicolon "return") (ts.drop 1)
      (expression p (ts.drop 1) .lowest)).build .ret).after 1 [] := by
  rw [ret]

theorem statement_eq_ret (hp : p.IsStandard) (h : (p.current ts).is .returnWord = true) :
    statement p ts = ret p ts := by
  have hVar : ¬ (p.current ts).is .varWord = true := by
    intro hIs
    cases Token.is_unique h hIs
  rw [statement_eq hp, if_neg hVar, if_pos h]

theorem statement_ret (hp : p.IsStandard) (h : t.is .returnWord = true) :
    statement p (t :: rest) =
      ((closing p .semicolon (.missingSemicolon "return") rest
        (expression p rest .lowest)).build .ret).after 1 [] := by
  have hCurrent : (p.current (t :: rest)).is .returnWord = true := h
  rw [statement_eq_ret hp hCurrent, ret_eq]
  rfl

theorem statement_eq_varDecl (hp : p.IsStandard) (h : (p.current ts).is .varWord = true) :
    statement p ts = varDecl p ts := by
  rw [statement_eq hp, if_pos h]

theorem statement_varDecl (hp : p.IsStandard) (h : t.is .varWord = true) :
    statement p (t :: rest) = varDecl p (t :: rest) :=
  statement_eq_varDecl hp h

variable {word sign : Token}

theorem varDecl_eq : varDecl p ts =
    if (p.next ts).tokenClass = .identifier then
      if (p.next (ts.drop 1)).is .semicolon then ⟨some (.varDecl (p.next ts).lexeme none), 2, []⟩
      else if (p.next (ts.drop 1)).is .assignment then
        ((closing p .semicolon (.missingSemicolon "var") (ts.drop 3)
          (expression p (ts.drop 3) .lowest)).build
            fun v => .varDecl (p.next ts).lexeme (some v)).after 3 []
      else (fail (p.next (ts.drop 1))
        (.expectedAssignment (p.next (ts.drop 1)).describe)).after 1 []
    else fail (p.next ts) (.expectedName (p.next ts).describe) := by
  rw [varDecl]

theorem varDecl_unnamed (h : (p.next ts).tokenClass ≠ .identifier) :
    varDecl p ts = fail (p.next ts) (.expectedName (p.next ts).describe) := by
  rw [varDecl_eq, if_neg h]

theorem varDecl_unassigned (hName : (p.next ts).tokenClass = .identifier)
    (hSemicolon : ¬ (p.next (ts.drop 1)).is .semicolon = true)
    (hAssignment : ¬ (p.next (ts.drop 1)).is .assignment = true) :
    varDecl p ts =
      (fail (p.next (ts.drop 1))
        (.expectedAssignment (p.next (ts.drop 1)).describe)).after 1 [] := by
  rw [varDecl_eq, if_pos hName, if_neg hSemicolon, if_neg hAssignment]

theorem varDecl_none (hName : word.tokenClass = .identifier) (hSign : sign.is .semicolon = true) :
    varDecl p (t :: word :: sign :: rest) = ⟨some (.varDecl word.lexeme none), 2, []⟩ := by
  rw [varDecl_eq]
  simp only [Setting.next_cons, Setting.current_cons, List.drop_succ_cons, List.drop_zero, hName,
    hSign, if_true]

theorem varDecl_some (hName : word.tokenClass = .identifier) (hSign : sign.is .assignment = true) :
    varDecl p (t :: word :: sign :: rest) =
      ((closing p .semicolon (.missingSemicolon "var") rest (expression p rest .lowest)).build
        fun v => .varDecl word.lexeme (some v)).after 3 [] := by
  have hSemicolon : ¬ sign.is .semicolon = true := by
    intro hIs
    cases Token.is_unique hSign hIs
  rw [varDecl_eq]
  simp only [Setting.next_cons, Setting.current_cons, List.drop_succ_cons, List.drop_zero, hName,
    hSign, hSemicolon, if_true, if_false, Bool.false_eq_true]

/-! ## Closing symbols -/

variable {α : Type} {s : Symbol} {fault : String → Fault} {part : Step (Option α)}

theorem closing_found (h : (p.next (ts.drop part.moved)).is s = true) :
    closing p s fault ts part = ⟨part.value, part.moved + 1, part.errors⟩ := by
  simp only [closing, expect, h, if_true, Option.bind_some, Step.after, List.append_nil]

theorem closing_missing (h : ¬ (p.next (ts.drop part.moved)).is s = true) :
    closing p s fault ts part =
      ⟨none, part.moved, part.errors ++
        [faultAt (p.next (ts.drop part.moved))
          (fault (p.next (ts.drop part.moved)).describe)]⟩ := by
  simp only [closing, expect, h, if_false, Bool.false_eq_true, fail, Option.bind_none, Step.after,
    Nat.add_zero]

/-- If nothing is reported, the symbol is next. -/
theorem next_of_closing (h : (closing p s fault ts part).errors = []) :
    (p.next (ts.drop part.moved)).is s = true := by
  by_cases hNext : (p.next (ts.drop part.moved)).is s = true
  · exact hNext
  · rw [closing_missing hNext] at h
    simp at h

/-- Closing a construct moves no way back. -/
theorem moved_le_closing (p : Setting) (s : Symbol) (fault : String → Fault)
    (ts : List Token) (part : Step (Option α)) :
    part.moved ≤ (closing p s fault ts part).moved := by
  by_cases hIs : (p.next (ts.drop part.moved)).is s = true
  · rw [closing_found hIs]
    exact Nat.le_succ _
  · exact Nat.le_of_eq (by rw [closing_missing hIs])

theorem closing_errors : part.errors <+: (closing p s fault ts part).errors := by
  by_cases hNext : (p.next (ts.drop part.moved)).is s = true
  · exact ⟨[], by rw [closing_found hNext, List.append_nil]⟩
  · rw [closing_missing hNext]
    exact List.prefix_append _ _

theorem value_of_closing {v : α} (h : (closing p s fault ts part).value = some v) :
    part.value = some v := by
  by_cases hNext : (p.next (ts.drop part.moved)).is s = true
  · rwa [closing_found hNext] at h
  · rw [closing_missing hNext] at h
    cases h

end Frontend.Parse
