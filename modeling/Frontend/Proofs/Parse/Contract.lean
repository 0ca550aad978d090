import Frontend.Proofs.Parse.Rules

/-!
# Contracts of the parsing functions

A contract says of each parsing function how its result relates to the tokens it started on. A
contract is respected if every way in which a function can come to its result keeps it, given that
the functions called on the way keep it. There is one clause for each of these ways under the
grammar of the language; branches that this grammar never takes have none.

* `Contract.holdsAt`: a contract that is respected holds of every parse. This is the only induction
  over the parsing functions; what a parse preserves is proved clause by clause.
-/

namespace Frontend.Parse

/-- What is promised of the result of each parsing function on its tokens. -/
structure Contract where
  expression : List Token → BindingPower → Step (Option Expr) → Prop
  operators : List Token → BindingPower → Option Expr → Step (Option Expr) → Prop
  operand : List Token → Step (Option Expr) → Prop
  branches : List Token → Option Expr → Step (Option Expr) → Prop
  otherwise : List Token → Option Expr → List Stmt → Step (Option Expr) → Prop
  block : List Token → Step (List Stmt) → Prop
  statements : List Token → Bool → Step (List Stmt) → Prop
  statement : List Token → Step (Option Stmt) → Prop

namespace Contract

/-- Every way to a result keeps the contract. -/
structure Respected (p : Setting) (C : Contract) : Prop where
  noOperand : ∀ {ts floor}, (∀ rule, ¬ Opening (p.current ts) rule) →
    C.expression ts floor (fail (p.current ts) (.noOperand (p.current ts).describe))
  opened : ∀ {t rest floor first s rule}, Opening t rule → C.operand (t :: rest) first →
    C.operators ((t :: rest).drop first.moved) floor first.value s →
    C.expression (t :: rest) floor (s.after first.moved first.errors)
  stop : ∀ {ts floor left}, ¬ floor < p.grammar.power (p.next ts) →
    C.operators ts floor left (.stay left)
  fold : ∀ {head t rest floor left right s} {op : BinaryOp}, t.is op.symbol = true →
    floor < op.power → C.expression rest op.power right →
    C.operators (rest.drop right.moved) floor (combine op left right.value) s →
    C.operators (head :: t :: rest) floor left (s.after (2 + right.moved) right.errors)
  integer : ∀ {t rest}, t.tokenClass = .number → C.operand (t :: rest) (integer t)
  truth : ∀ {t rest}, t.tokenClass = .boolean → C.operand (t :: rest) (truth t)
  name : ∀ {t rest}, t.tokenClass = .identifier → C.operand (t :: rest) (name t)
  unary : ∀ {t rest s} {op : UnaryOp}, t.is op.symbol = true → C.expression rest .unary s →
    C.operand (t :: rest) ((s.build (.unary op)).after 1 [])
  group : ∀ {t rest s}, t.is .openParen = true → C.expression rest .lowest s →
    C.operand (t :: rest)
      ((closing p .closeParen (.missingClosingParen "grouped expression") rest s).after 1 [])
  cond : ∀ {t rest condition s}, t.is .ifWord = true → (p.current rest).is .openParen = true →
    C.expression rest .lowest condition →
    C.branches (rest.drop condition.moved) condition.value s →
    C.operand (t :: rest) (s.after (1 + condition.moved) condition.errors)
  condUnopened : ∀ {t rest}, t.is .ifWord = true → ¬ (p.current rest).is .openParen = true →
    C.operand (t :: rest)
      (fail (p.current rest) (.missingOpeningParen "if expression" (p.current rest).describe))
  branches : ∀ {close opening rest condition body s}, close.is .closeParen = true →
    opening.is .openCurly = true → C.block (opening :: rest) body →
    C.otherwise ((opening :: rest).drop body.moved) condition body.value s →
    C.branches (close :: opening :: rest) condition (s.after (1 + body.moved) body.errors)
  branchesUnclosed : ∀ {ts condition}, ¬ (p.current ts).is .closeParen = true →
    C.branches ts condition
      (fail (p.current ts) (.missingClosingParen "if expression" (p.current ts).describe))
  branchesUnopened : ∀ {ts condition}, (p.current ts).is .closeParen = true →
    ¬ (p.next ts).is .openCurly = true →
    C.branches ts condition
      ((fail (p.next ts) (.missingOpeningCurly "if expression" (p.next ts).describe)).after 1 [])
  otherwiseNone : ∀ {ts condition body}, ¬ (p.next ts).is .elseWord = true →
    C.otherwise ts condition body (.stay (condition.map fun c => .cond c body none))
  otherwise : ∀ {last word opening rest condition body other}, word.is .elseWord = true →
    opening.is .openCurly = true → C.block (opening :: rest) other →
    C.otherwise (last :: word :: opening :: rest) condition body
      ⟨condition.map fun c => .cond c body (some other.value), 2 + other.moved, other.errors⟩
  otherwiseUnopened : ∀ {ts condition body}, (p.next ts).is .elseWord = true →
    ¬ (p.next (ts.drop 1)).is .openCurly = true →
    C.otherwise ts condition body
      ((fail (p.next (ts.drop 1))
        (.missingOpeningCurly "else expression" (p.next (ts.drop 1)).describe)).after 1 [])
  block : ∀ {t rest s}, t.is .openCurly = true → C.statements rest true s →
    C.block (t :: rest) (s.after 1 [])
  ends : ∀ {ts inBlock}, Ends inBlock ts → C.statements ts inBlock (.stay [])
  next : ∀ {t rest inBlock one others}, ¬ Ends inBlock (t :: rest) → C.statement (t :: rest) one →
    C.statements (rest.drop one.moved) inBlock others →
    C.statements (t :: rest) inBlock
      ⟨one.value.toList ++ others.value, one.moved + 1 + others.moved, one.errors ++ others.errors⟩
  expressionStmt : ∀ {ts s}, ¬ (p.current ts).is .varWord = true →
    ¬ (p.current ts).is .returnWord = true → C.expression ts .lowest s →
    C.statement ts ⟨s.value.map .expr,
      s.moved + (if (p.next (ts.drop s.moved)).is .semicolon then 1 else 0), s.errors⟩
  ret : ∀ {t rest s}, t.is .returnWord = true → C.expression rest .lowest s →
    C.statement (t :: rest)
      (((closing p .semicolon (.missingSemicolon "return") rest s).build .ret).after 1 [])
  varDecl : ∀ {t word sign rest s}, t.is .varWord = true → word.tokenClass = .identifier →
    sign.is .assignment = true → C.expression rest .lowest s →
    C.statement (t :: word :: sign :: rest)
      (((closing p .semicolon (.missingSemicolon "var") rest s).build
        fun v => .varDecl word.lexeme (some v)).after 3 [])
  varDeclNone : ∀ {t word sign rest}, t.is .varWord = true → word.tokenClass = .identifier →
    sign.is .semicolon = true →
    C.statement (t :: word :: sign :: rest) ⟨some (.varDecl word.lexeme none), 2, []⟩
  varDeclUnnamed : ∀ {t rest}, t.is .varWord = true →
    (p.current rest).tokenClass ≠ .identifier →
    C.statement (t :: rest) (fail (p.current rest) (.expectedName (p.current rest).describe))
  varDeclUnassigned : ∀ {t rest}, t.is .varWord = true →
    (p.current rest).tokenClass = .identifier → ¬ (p.next rest).is .semicolon = true →
    ¬ (p.next rest).is .assignment = true →
    C.statement (t :: rest)
      ((fail (p.next rest) (.expectedAssignment (p.next rest).describe)).after 1 [])

/-- The contract holds of every parsing function that starts on the tokens. -/
structure HoldsAt (p : Setting) (C : Contract) (ts : List Token) : Prop where
  expression : ∀ floor, C.expression ts floor (Parse.expression p ts floor)
  operators : ∀ floor left, C.operators ts floor left (Parse.operators p ts floor left)
  operand : ∀ {t rest rule}, ts = t :: rest → Opening t rule →
    C.operand ts (Parse.operand p ts rule)
  branches : ∀ condition, C.branches ts condition (Parse.branches p ts condition)
  otherwise : ∀ condition body,
    C.otherwise ts condition body (Parse.otherwise p ts condition body)
  block : ∀ {t rest}, ts = t :: rest → t.is .openCurly = true → C.block ts (Parse.block p ts)
  statements : ∀ inBlock, C.statements ts inBlock (Parse.statements p ts inBlock)
  statement : C.statement ts (Parse.statement p ts)

variable {p : Setting} {C : Contract} {ts : List Token}

/-! Each of the following lemmas is about one parsing function on the tokens `ts`. The functions
that it calls on fewer tokens keep the contract by assumption. -/

theorem operators_holds (hC : C.Respected p) (hp : p.IsStandard)
    (ih : ∀ ts', ts'.length < ts.length → HoldsAt p C ts') (floor : BindingPower)
    (left : Option Expr) : C.operators ts floor left (Parse.operators p ts floor left) := by
  by_cases hLt : floor < p.grammar.power (p.next ts)
  · have hLt' : floor < Grammar.standard.power (p.next ts) := by rwa [hp.grammar] at hLt
    obtain ⟨op, hOp⟩ := exists_operator_of_lt hLt'
    rw [power_of_is hOp] at hLt'
    obtain ⟨head, t, rest, rfl, hIs⟩ := hp.exists_cons_next hOp
    rw [operators_fold hp hIs hLt']
    refine hC.fold hIs hLt' ((ih rest ?_).expression _) ((ih _ ?_).operators _ _)
    · simp only [List.length_cons]
      omega
    · simp only [List.length_cons, List.length_drop]
      omega
  · rw [operators_stop hLt]
    exact hC.stop hLt

theorem operand_holds (hC : C.Respected p) {t : Token} {rest : List Token} {rule : OperandRule}
    (ih : ∀ ts', ts'.length < (t :: rest).length → HoldsAt p C ts') (h : Opening t rule) :
    C.operand (t :: rest) (Parse.operand p (t :: rest) rule) := by
  have hRest := ih rest (Nat.lt_succ_self _)
  cases h with
  | integer h =>
    rw [operand_integer]
    exact hC.integer h
  | truth h =>
    rw [operand_truth]
    exact hC.truth h
  | name h =>
    rw [operand_name]
    exact hC.name h
  | unary op h =>
    rw [operand_unary h]
    exact hC.unary h (hRest.expression _)
  | group h =>
    rw [operand_group]
    exact hC.group h (hRest.expression _)
  | cond h =>
    by_cases hOpen : (p.current rest).is .openParen = true
    · rw [operand_cond hOpen]
      refine hC.cond h hOpen (hRest.expression _) ((ih _ ?_).branches _)
      simp only [List.length_cons, List.length_drop]
      omega
    · have hNext : ¬ (p.next (t :: rest)).is .openParen = true := hOpen
      rw [operand_cond_unopened hNext]
      exact hC.condUnopened h hOpen

theorem expression_holds (hC : C.Respected p) (hp : p.IsStandard)
    (ih : ∀ ts', ts'.length < ts.length → HoldsAt p C ts') (floor : BindingPower) :
    C.expression ts floor (Parse.expression p ts floor) := by
  by_cases h : ∃ rule, Opening (p.current ts) rule
  · obtain ⟨rule, hRule⟩ := h
    cases ts with
    | nil =>
      rw [← opening_iff, Setting.current_nil, Token.key_of_isEnd hp.endMark] at hRule
      cases hRule
    | cons t rest =>
      rw [Setting.current_cons] at hRule
      rw [expression_of_opening hp hRule]
      refine hC.opened hRule (operand_holds hC ih hRule) (operators_holds hC hp ?_ _ _)
      intro ts' hLength
      refine ih ts' (Nat.lt_of_lt_of_le hLength ?_)
      rw [List.length_drop]
      exact Nat.sub_le _ _
  · have hNone : ∀ rule, ¬ Opening (p.current ts) rule := fun rule hRule => h ⟨rule, hRule⟩
    rw [expression_of_noOperand hp hNone]
    exact hC.noOperand hNone

theorem branches_holds (hC : C.Respected p) (hp : p.IsStandard)
    (ih : ∀ ts', ts'.length < ts.length → HoldsAt p C ts') (condition : Option Expr) :
    C.branches ts condition (Parse.branches p ts condition) := by
  by_cases hClose : (p.current ts).is .closeParen = true
  · obtain ⟨close, rest, rfl, hClose'⟩ := hp.exists_cons hClose
    by_cases hOpening : (p.next (close :: rest)).is .openCurly = true
    · obtain ⟨opening, rest', rfl, hOpening'⟩ := hp.exists_cons hOpening
      rw [branches_cons hClose' hOpening']
      refine hC.branches hClose' hOpening' ((ih _ ?_).block rfl hOpening') ((ih _ ?_).otherwise _ _)
      · exact Nat.lt_succ_self _
      · simp only [List.length_cons, List.length_drop]
        omega
    · rw [branches_unopened hClose hOpening]
      exact hC.branchesUnopened hClose hOpening
  · rw [branches_unclosed hClose]
    exact hC.branchesUnclosed hClose

theorem otherwise_holds (hC : C.Respected p) (hp : p.IsStandard)
    (ih : ∀ ts', ts'.length < ts.length → HoldsAt p C ts') (condition : Option Expr)
    (body : List Stmt) : C.otherwise ts condition body (Parse.otherwise p ts condition body) := by
  by_cases hElse : (p.next ts).is .elseWord = true
  · obtain ⟨last, word, rest, rfl, hElse'⟩ := hp.exists_cons_next hElse
    by_cases hOpening : (p.next (word :: rest)).is .openCurly = true
    · obtain ⟨opening, rest', rfl, hOpening'⟩ := hp.exists_cons hOpening
      rw [otherwise_some hElse' hOpening']
      refine hC.otherwise hElse' hOpening' ((ih _ ?_).block rfl hOpening')
      simp only [List.length_cons]
      omega
    · rw [otherwise_unopened hElse hOpening]
      exact hC.otherwiseUnopened hElse hOpening
  · rw [otherwise_none hElse]
    exact hC.otherwiseNone hElse

theorem varDecl_holds (hC : C.Respected p) (hp : p.IsStandard) {t : Token} {rest : List Token}
    (ih : ∀ ts', ts'.length < (t :: rest).length → HoldsAt p C ts') (h : t.is .varWord = true) :
    C.statement (t :: rest) (Parse.varDecl p (t :: rest)) := by
  by_cases hName : (p.next (t :: rest)).tokenClass = .identifier
  · by_cases hSemicolon : (p.next rest).is .semicolon = true
    · obtain ⟨word, sign, rest', rfl, hSign⟩ := hp.exists_cons_next hSemicolon
      rw [Setting.next_cons, Setting.current_cons] at hName
      rw [varDecl_none hName hSign]
      exact hC.varDeclNone h hName hSign
    · by_cases hAssignment : (p.next rest).is .assignment = true
      · obtain ⟨word, sign, rest', rfl, hSign⟩ := hp.exists_cons_next hAssignment
        rw [Setting.next_cons, Setting.current_cons] at hName
        rw [varDecl_some hName hSign]
        refine hC.varDecl h hName hSign ((ih _ ?_).expression _)
        simp only [List.length_cons]
        omega
      · rw [varDecl_unassigned hName hSemicolon hAssignment]
        exact hC.varDeclUnassigned h hName hSemicolon hAssignment
  · rw [varDecl_unnamed hName]
    exact hC.varDeclUnnamed h hName

theorem statement_holds (hC : C.Respected p) (hp : p.IsStandard)
    (ih : ∀ ts', ts'.length < ts.length → HoldsAt p C ts') :
    C.statement ts (Parse.statement p ts) := by
  by_cases hVar : (p.current ts).is .varWord = true
  · obtain ⟨t, rest, rfl, hVar'⟩ := hp.exists_cons hVar
    rw [statement_varDecl hp hVar']
    exact varDecl_holds hC hp ih hVar'
  · by_cases hReturn : (p.current ts).is .returnWord = true
    · obtain ⟨t, rest, rfl, hReturn'⟩ := hp.exists_cons hReturn
      rw [statement_ret hp hReturn']
      exact hC.ret hReturn' ((ih rest (Nat.lt_succ_self _)).expression _)
    · rw [statement_expr hp hVar hReturn, expressionStmt_eq]
      exact hC.expressionStmt hVar hReturn (expression_holds hC hp ih _)

theorem statements_holds (hC : C.Respected p) (hp : p.IsStandard)
    (ih : ∀ ts', ts'.length < ts.length → HoldsAt p C ts') (inBlock : Bool) :
    C.statements ts inBlock (Parse.statements p ts inBlock) := by
  by_cases hEnds : Ends inBlock ts
  · rw [statements_of_ends hEnds]
    exact hC.ends hEnds
  · cases ts with
    | nil => exact absurd (fun t ht => nomatch ht) hEnds
    | cons t rest =>
      rw [statements_cons hEnds]
      refine hC.next hEnds (statement_holds hC hp ih) ((ih _ ?_).statements _)
      simp only [List.length_cons, List.length_drop]
      omega

/-- The induction is on the number of tokens: a function either has fewer tokens left for the
functions it calls, or calls functions that come before it in this file. -/
theorem holdsAt (hC : C.Respected p) (hp : p.IsStandard) (ts : List Token) : HoldsAt p C ts := by
  induction hLength : ts.length using Nat.strongRecOn generalizing ts with
  | ind n ih =>
    subst hLength
    have ih' : ∀ ts', ts'.length < ts.length → HoldsAt p C ts' :=
      fun ts' hLt => ih _ hLt ts' rfl
    refine ⟨expression_holds hC hp ih', operators_holds hC hp ih', ?_, branches_holds hC hp ih',
      otherwise_holds hC hp ih', ?_, statements_holds hC hp ih', statement_holds hC hp ih'⟩
    · rintro t rest rule rfl hOpening
      exact operand_holds hC ih' hOpening
    · rintro t rest rfl hOpen
      rw [block_cons]
      exact hC.block hOpen ((ih' rest (Nat.lt_succ_self _)).statements _)

end Contract

end Frontend.Parse
