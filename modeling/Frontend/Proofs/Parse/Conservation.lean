import Frontend.Proofs.Parse.Content
import Frontend.Proofs.Parse.Contract

/-!
# A parse without reports loses nothing

As long as nothing is reported, every parsing function accounts for each token that it moves past:
the tree that it builds has the content of these tokens. So no token is skipped, read twice or put
in another place, whatever the nesting.

* `accounting_respected`: each way to a result keeps the account.
* `contents_parse`: a program without errors has the content of its tokens. The mark of the end may
  only stand last: at one in the middle, reading stops.
-/

namespace Frontend.Parse

/-- A function that starts and ends on tokens of its construct, and reports nothing, builds a tree
with the content of the tokens from the first to the last. -/
def Accounts {α : Type} (write : α → List Content) (ts : List Token) (s : Step (Option α)) : Prop :=
  s.errors = [] → ∃ v, s.value = some v ∧ write v = contents (ts.take (s.moved + 1))

/-- A function that goes on from a tree that was built before, on the last token of that tree, adds
the content of the tokens that it moves past. -/
def Extends (before : Option (List Content)) (ts : List Token) (s : Step (Option Expr)) : Prop :=
  s.errors = [] → ∀ front, before = some front →
    ∃ v, s.value = some v ∧ v.contents = front ++ contents ((ts.drop 1).take s.moved)

/-- The content of a conditional up to its condition. -/
def conditionContents (condition : Option Expr) : Option (List Content) :=
  condition.map fun c => .symbol .ifWord :: c.contents

/-- The content of a conditional up to its first block. -/
def bodyAfter (condition : Option Expr) (body : List Stmt) : Option (List Content) :=
  condition.map fun c => .symbol .ifWord :: c.contents ++ .symbol .openCurly :: bodyContents body

/-- What each parsing function accounts for. Statements end where they say, so that the closing
brace behind them belongs to their block. -/
def accounting : Contract where
  expression ts _ s := Accounts Expr.contents ts s
  operators ts _ left s := Extends (left.map Expr.contents) ts s
  operand ts s := Accounts Expr.contents ts s
  branches ts condition s := Extends (conditionContents condition) ts s
  otherwise ts condition body s := Extends (bodyAfter condition body) ts s
  block ts s := s.errors = [] →
    .symbol .openCurly :: bodyContents s.value = contents (ts.take (s.moved + 1))
  statements ts inBlock s := s.errors = [] →
    bodyContents s.value = contents (ts.take s.moved) ∧ Ends inBlock (ts.drop s.moved)
  statement ts s := Accounts Stmt.contents ts s

variable {p : Setting} {t : Token} {ts rest : List Token}

/-! ## Steps that report nothing -/

theorem accounts_fail {α : Type} {write : α → List Content} {s : Step (Option α)}
    (h : s.errors ≠ []) : Accounts write ts s := by
  intro hClean
  exact absurd hClean h

theorem extends_fail {before : Option (List Content)} {s : Step (Option Expr)}
    (h : s.errors ≠ []) : Extends before ts s := by
  intro hClean
  exact absurd hClean h

/-- A further token that only groups adds nothing. -/
theorem contents_take_next (hp : p.IsStandard) {s : Symbol} {k : Nat}
    (h : (p.next (ts.drop k)).is s = true)
    (hSilent : s = .openParen ∨ s = .closeParen ∨ s = .semicolon ∨ s = .closeCurly) :
    contents (ts.take (k + 1 + 1)) = contents (ts.take (k + 1)) := by
  obtain ⟨head, next, behind, hDrop, hIs⟩ := hp.exists_cons_next h
  have hBehind : ts.drop (k + 1) = next :: behind := by
    rw [← List.drop_drop, hDrop, List.drop_succ_cons, List.drop_zero]
  have hGroup : next.isGrouping = true := by
    rw [Token.isGrouping_of_is hIs]
    exact decide_eq_true hSilent
  rw [contents_take_add, hBehind, List.take_succ_cons, List.take_zero,
    contents_cons_grouping hGroup, contents_nil, List.append_nil]

theorem accounts_closing (hp : p.IsStandard) {α : Type} {write : α → List Content} {s : Symbol}
    {fault : String → Fault} {part : Step (Option α)} (hPart : Accounts write ts part)
    (hSilent : s = .openParen ∨ s = .closeParen ∨ s = .semicolon ∨ s = .closeCurly) :
    Accounts write ts (closing p s fault ts part) := by
  intro hClean
  have hNext := next_of_closing hClean
  rw [closing_found hNext] at hClean ⊢
  obtain ⟨v, hValue, hContents⟩ := hPart hClean
  refine ⟨v, hValue, ?_⟩
  rw [hContents]
  exact (contents_take_next hp hNext hSilent).symm

/-- Where statements end, a further token adds nothing. -/
theorem contents_take_ends {inBlock : Bool} {k : Nat} (h : Ends inBlock (ts.drop k)) :
    contents (ts.take (k + 1)) = contents (ts.take k) := by
  rw [contents_take_add]
  cases hDrop : ts.drop k with
  | nil => simp
  | cons t behind =>
    have hGroup : t.isGrouping = true := by
      rw [hDrop] at h
      rcases h t rfl with hEnd | ⟨-, hClose⟩
      · exact Token.isGrouping_of_isEnd hEnd
      · rw [Token.isGrouping_of_is hClose]
        exact decide_eq_true (by simp)
    rw [List.take_succ_cons, List.take_zero, contents_cons_grouping hGroup, contents_nil,
      List.append_nil]

/-- The tokens of a construct followed by those that another function moves past. -/
theorem contents_take_after (ts : List Token) (a b : Nat) :
    contents (ts.take (a + b + 1)) =
      contents (ts.take (a + 1)) ++ contents (((ts.drop a).drop 1).take b) := by
  rw [List.drop_drop, ← contents_take_add, Nat.add_right_comm]

theorem clean_after {α : Type} {s : Step α} {k : Nat} {before : List Diagnostic}
    (h : (s.after k before).errors = []) : before = [] ∧ s.errors = [] :=
  List.append_eq_nil_iff.1 h

/-! ## Expressions -/

theorem accounts_opened {first s : Step (Option Expr)} (hFirst : Accounts Expr.contents ts first)
    (hRest : Extends (first.value.map Expr.contents) (ts.drop first.moved) s) :
    Accounts Expr.contents ts (s.after first.moved first.errors) := by
  intro hClean
  obtain ⟨hCleanFirst, hCleanRest⟩ := clean_after hClean
  obtain ⟨e, hValue, hContents⟩ := hFirst hCleanFirst
  obtain ⟨v, hResult, hExtended⟩ := hRest hCleanRest e.contents (by rw [hValue]; rfl)
  refine ⟨v, hResult, ?_⟩
  rw [hExtended, hContents, Step.moved_after, contents_take_after]

theorem extends_stop {left : Option Expr} : Extends (left.map Expr.contents) ts (.stay left) := by
  intro _ front hFront
  obtain ⟨l, rfl, rfl⟩ := Option.map_eq_some_iff.1 hFront
  exact ⟨l, rfl, by simp⟩

theorem extends_fold {head : Token} {left : Option Expr} {right s : Step (Option Expr)}
    {op : BinaryOp} (hIs : t.is op.symbol = true) (hRight : Accounts Expr.contents rest right)
    (hRest : Extends ((combine op left right.value).map Expr.contents) (rest.drop right.moved) s) :
    Extends (left.map Expr.contents) (head :: t :: rest)
      (s.after (2 + right.moved) right.errors) := by
  intro hClean front hFront
  obtain ⟨hCleanRight, hCleanRest⟩ := clean_after hClean
  obtain ⟨l, rfl, rfl⟩ := Option.map_eq_some_iff.1 hFront
  obtain ⟨r, hValue, hContents⟩ := hRight hCleanRight
  obtain ⟨v, hResult, hExtended⟩ :=
    hRest hCleanRest (l.contents ++ .symbol op.symbol :: r.contents) (by
      rw [hValue]
      rfl)
  refine ⟨v, hResult, ?_⟩
  have hMoved : 2 + right.moved + s.moved = right.moved + s.moved + 1 + 1 := by omega
  have hSymbol : contents (t :: rest.take (right.moved + s.moved + 1)) =
      .symbol op.symbol :: contents (rest.take (right.moved + s.moved + 1)) :=
    contents_cons_symbol hIs (by cases op <;> decide) _
  rw [hExtended, Step.moved_after, hMoved, List.drop_succ_cons, List.drop_zero,
    List.take_succ_cons, hSymbol, contents_take_after, hContents]
  simp only [List.append_assoc, List.cons_append]

theorem accounts_integer (h : t.tokenClass = .number) :
    Accounts Expr.contents (t :: rest) (integer t) := by
  unfold integer
  split
  · rename_i v hValue
    intro _
    refine ⟨.int v, rfl, ?_⟩
    rw [Step.moved_stay, List.take_succ_cons, List.take_zero, contents_cons, contents_nil,
      Token.content_of_number h, hValue]
    · rfl
    · exact Token.isGrouping_of_tokenClass h (by decide) fun s => s.tokenClass_ne.1
  · exact accounts_fail (List.cons_ne_nil _ _)

theorem accounts_truth (h : t.tokenClass = .boolean) :
    Accounts Expr.contents (t :: rest) (truth t) := by
  unfold truth
  split
  · rename_i b hValue
    intro _
    refine ⟨.bool b, rfl, ?_⟩
    rw [Step.moved_stay, List.take_succ_cons, List.take_zero, contents_cons, contents_nil,
      Token.content_of_boolean h, Truth.ofText?_eq_some_iff.1 hValue]
    · rfl
    · exact Token.isGrouping_of_tokenClass h (by decide) fun s => s.tokenClass_ne.2.1
  · exact accounts_fail (List.cons_ne_nil _ _)

theorem accounts_name (h : t.tokenClass = .identifier) :
    Accounts Expr.contents (t :: rest) (name t) := by
  intro _
  refine ⟨.name t.lexeme, rfl, ?_⟩
  rw [name, Step.moved_stay, List.take_succ_cons, List.take_zero, contents_cons, contents_nil,
    Token.content_of_identifier h]
  · rfl
  · exact Token.isGrouping_of_tokenClass h (by decide) fun s => s.tokenClass_ne.2.2.1

/-- A construct of one token and a part behind it. -/
theorem accounts_after_one {α : Type} {write : α → List Content} {s : Step (Option α)}
    (front : List Content)
    (hPart : s.errors = [] → ∃ v, s.value = some v ∧
      write v = front ++ contents (rest.take (s.moved + 1)))
    (hFront : contents [t] = front) : Accounts write (t :: rest) (s.after 1 []) := by
  intro hClean
  obtain ⟨v, hValue, hContents⟩ := hPart (clean_after hClean).2
  refine ⟨v, hValue, ?_⟩
  rw [hContents, ← hFront, ← contents_append, Step.moved_after, Nat.add_comm 1,
    List.take_succ_cons, List.singleton_append]

theorem accounts_unary {op : UnaryOp} {s : Step (Option Expr)} (hIs : t.is op.symbol = true)
    (hOperand : Accounts Expr.contents rest s) :
    Accounts Expr.contents (t :: rest) ((s.build (.unary op)).after 1 []) := by
  refine accounts_after_one [.symbol op.symbol] ?_ ?_
  · intro hClean
    obtain ⟨e, hValue, hContents⟩ := hOperand hClean
    refine ⟨.unary op e, by rw [Step.value_build, hValue]; rfl, ?_⟩
    show Content.symbol op.symbol :: e.contents = _
    rw [hContents]
    rfl
  · exact contents_cons_symbol hIs (by cases op <;> decide) []

theorem accounts_group (hp : p.IsStandard) {s : Step (Option Expr)} (hIs : t.is .openParen = true)
    (hInner : Accounts Expr.contents rest s) :
    Accounts Expr.contents (t :: rest)
      ((closing p .closeParen (.missingClosingParen "grouped expression") rest s).after 1 []) := by
  refine accounts_after_one [] (accounts_closing hp hInner (by simp)) ?_
  rw [contents_cons_grouping, contents_nil]
  rw [Token.isGrouping_of_is hIs]
  rfl

/-! ## Conditionals -/

theorem accounts_cond {condition s : Step (Option Expr)} (hIs : t.is .ifWord = true)
    (hCondition : Accounts Expr.contents rest condition)
    (hRest : Extends (conditionContents condition.value) (rest.drop condition.moved) s) :
    Accounts Expr.contents (t :: rest) (s.after (1 + condition.moved) condition.errors) := by
  intro hClean
  obtain ⟨hCleanCondition, hCleanRest⟩ := clean_after hClean
  obtain ⟨c, hValue, hContents⟩ := hCondition hCleanCondition
  obtain ⟨v, hResult, hExtended⟩ := hRest hCleanRest (.symbol .ifWord :: c.contents) (by
    rw [hValue]
    rfl)
  refine ⟨v, hResult, ?_⟩
  have hMoved : 1 + condition.moved + s.moved + 1 = condition.moved + s.moved + 1 + 1 := by omega
  rw [hExtended, Step.moved_after, hMoved, List.take_succ_cons,
    contents_cons_symbol hIs (by decide), contents_take_after, hContents]
  rfl

theorem extends_branches {close opening : Token} {condition : Option Expr}
    {body : Step (List Stmt)} {s : Step (Option Expr)}
    (hBody : body.errors = [] → .symbol .openCurly :: bodyContents body.value =
      contents ((opening :: rest).take (body.moved + 1)))
    (hRest : Extends (bodyAfter condition body.value) ((opening :: rest).drop body.moved) s) :
    Extends (conditionContents condition) (close :: opening :: rest)
      (s.after (1 + body.moved) body.errors) := by
  intro hClean front hFront
  obtain ⟨hCleanBody, hCleanRest⟩ := clean_after hClean
  obtain ⟨c, rfl, rfl⟩ := Option.map_eq_some_iff.1 hFront
  obtain ⟨v, hResult, hExtended⟩ := hRest hCleanRest _ rfl
  refine ⟨v, hResult, ?_⟩
  have hMoved : 1 + body.moved + s.moved = body.moved + s.moved + 1 := by omega
  rw [hExtended, Step.moved_after, hMoved, List.drop_succ_cons, List.drop_zero,
    contents_take_after, ← hBody hCleanBody]
  simp only [List.append_assoc, List.cons_append]

theorem extends_otherwise_none {condition : Option Expr} {body : List Stmt} :
    Extends (bodyAfter condition body) ts
      (.stay (condition.map fun c => .cond c body none)) := by
  intro _ front hFront
  obtain ⟨c, rfl, rfl⟩ := Option.map_eq_some_iff.1 hFront
  refine ⟨.cond c body none, rfl, ?_⟩
  rw [Step.moved_stay, List.take_zero, contents_nil, List.append_nil]
  rfl

theorem extends_otherwise {last word opening : Token} {condition : Option Expr} {body : List Stmt}
    {other : Step (List Stmt)} (hIs : word.is .elseWord = true)
    (hOther : other.errors = [] → .symbol .openCurly :: bodyContents other.value =
      contents ((opening :: rest).take (other.moved + 1))) :
    Extends (bodyAfter condition body) (last :: word :: opening :: rest)
      ⟨condition.map fun c => .cond c body (some other.value), 2 + other.moved,
        other.errors⟩ := by
  intro hClean front hFront
  obtain ⟨c, rfl, rfl⟩ := Option.map_eq_some_iff.1 hFront
  refine ⟨.cond c body (some other.value), rfl, ?_⟩
  have hMoved : 2 + other.moved = other.moved + 1 + 1 := by omega
  rw [hMoved, List.drop_succ_cons, List.drop_zero, List.take_succ_cons,
    contents_cons_symbol hIs (by decide), ← hOther hClean]
  rfl

/-! ## Statements -/

theorem accounts_block {s : Step (List Stmt)} (hIs : t.is .openCurly = true)
    (hBody : s.errors = [] →
      bodyContents s.value = contents (rest.take s.moved) ∧ Ends true (rest.drop s.moved))
    (hClean : (s.after 1 []).errors = []) :
    .symbol .openCurly :: bodyContents s.value =
      contents ((t :: rest).take ((s.after 1 []).moved + 1)) := by
  obtain ⟨hContents, hEnds⟩ := hBody (clean_after hClean).2
  rw [Step.moved_after, Nat.add_comm 1, List.take_succ_cons,
    contents_cons_symbol hIs (by decide), contents_take_ends hEnds, hContents]

theorem bodyContents_append (a b : List Stmt) :
    bodyContents (a ++ b) = bodyContents a ++ bodyContents b := by
  induction a with
  | nil => rfl
  | cons s rest ih => rw [List.cons_append, bodyContents, bodyContents, ih, List.append_assoc]

theorem accounts_next {inBlock : Bool} {one : Step (Option Stmt)} {others : Step (List Stmt)}
    (hOne : Accounts Stmt.contents (t :: rest) one)
    (hOthers : others.errors = [] →
      bodyContents others.value = contents ((rest.drop one.moved).take others.moved) ∧
        Ends inBlock ((rest.drop one.moved).drop others.moved))
    (hClean : one.errors ++ others.errors = []) :
    bodyContents (one.value.toList ++ others.value) =
        contents ((t :: rest).take (one.moved + 1 + others.moved)) ∧
      Ends inBlock ((t :: rest).drop (one.moved + 1 + others.moved)) := by
  obtain ⟨hCleanOne, hCleanOthers⟩ := List.append_eq_nil_iff.1 hClean
  obtain ⟨v, hValue, hContents⟩ := hOne hCleanOne
  obtain ⟨hRest, hEnds⟩ := hOthers hCleanOthers
  have hDrop : (t :: rest).drop (one.moved + 1) = rest.drop one.moved := List.drop_succ_cons
  constructor
  · rw [contents_take_add, hDrop, bodyContents_append, hRest, hValue, ← hContents]
    simp only [Option.toList_some, bodyContents, List.append_nil]
  · rw [← List.drop_drop, hDrop]
    exact hEnds

theorem accounts_expressionStmt (hp : p.IsStandard) {s : Step (Option Expr)}
    (hExpr : Accounts Expr.contents ts s) :
    Accounts Stmt.contents ts ⟨s.value.map .expr,
      s.moved + (if (p.next (ts.drop s.moved)).is .semicolon then 1 else 0), s.errors⟩ := by
  intro hClean
  obtain ⟨e, hValue, hContents⟩ := hExpr hClean
  refine ⟨.expr e, by rw [hValue]; rfl, ?_⟩
  rw [Stmt.contents, hContents]
  dsimp only
  split
  · rename_i hMark
    exact (contents_take_next hp hMark (by simp)).symm
  · rfl

theorem accounts_ret (hp : p.IsStandard) {s : Step (Option Expr)} (hIs : t.is .returnWord = true)
    (hExpr : Accounts Expr.contents rest s) :
    Accounts Stmt.contents (t :: rest)
      (((closing p .semicolon (.missingSemicolon "return") rest s).build .ret).after 1 []) := by
  refine accounts_after_one [.symbol .returnWord] ?_
    (contents_cons_symbol hIs (by decide) [])
  intro hClean
  obtain ⟨e, hValue, hContents⟩ := accounts_closing hp hExpr (by simp) hClean
  refine ⟨.ret e, by rw [Step.value_build, hValue]; rfl, ?_⟩
  rw [Stmt.contents, hContents]
  rfl

theorem contents_declared {word : Token} (hIs : t.is .varWord = true)
    (hName : word.tokenClass = .identifier) (rest : List Token) :
    contents (t :: word :: rest) =
      .symbol .varWord :: .word .identifier word.lexeme :: contents rest := by
  rw [contents_cons_symbol hIs (by decide), contents_cons, Token.content_of_identifier hName]
  exact Token.isGrouping_of_tokenClass hName (by decide) fun s => s.tokenClass_ne.2.2.1

theorem accounts_varDecl (hp : p.IsStandard) {word sign : Token} {s : Step (Option Expr)}
    (hIs : t.is .varWord = true) (hName : word.tokenClass = .identifier)
    (hSign : sign.is .assignment = true) (hExpr : Accounts Expr.contents rest s) :
    Accounts Stmt.contents (t :: word :: sign :: rest)
      (((closing p .semicolon (.missingSemicolon "var") rest s).build
        fun v => .varDecl word.lexeme (some v)).after 3 []) := by
  intro hClean
  obtain ⟨e, hValue, hContents⟩ := accounts_closing hp hExpr (by simp) (clean_after hClean).2
  refine ⟨.varDecl word.lexeme (some e), by simp [hValue], ?_⟩
  rw [Stmt.contents, hContents, Step.moved_after, Step.moved_build, Nat.add_comm 3,
    Nat.add_right_comm, List.take_succ_cons, List.take_succ_cons, List.take_succ_cons,
    contents_declared hIs hName, contents_cons_symbol hSign (by decide)]

theorem accounts_varDecl_none {word sign : Token} (hIs : t.is .varWord = true)
    (hName : word.tokenClass = .identifier) (hSign : sign.is .semicolon = true) :
    Accounts Stmt.contents (t :: word :: sign :: rest)
      ⟨some (.varDecl word.lexeme none), 2, []⟩ := by
  intro _
  refine ⟨.varDecl word.lexeme none, rfl, ?_⟩
  rw [Stmt.contents, List.take_succ_cons, List.take_succ_cons, List.take_succ_cons, List.take_zero,
    contents_declared hIs hName, contents_cons_grouping, contents_nil]
  rw [Token.isGrouping_of_is hSign]
  rfl

/-! ## Programs -/

/-- Every way to a result keeps the account. -/
theorem accounting_respected (hp : p.IsStandard) : accounting.Respected p where
  noOperand _ := accounts_fail (List.cons_ne_nil _ _)
  opened _ hFirst hRest := accounts_opened hFirst hRest
  stop _ := extends_stop
  fold hIs _ hRight hRest := extends_fold hIs hRight hRest
  integer h := accounts_integer h
  truth h := accounts_truth h
  name h := accounts_name h
  unary hIs hOperand := accounts_unary hIs hOperand
  group hIs hInner := accounts_group hp hIs hInner
  cond hIs _ hCondition hRest := accounts_cond hIs hCondition hRest
  condUnopened _ _ := accounts_fail (List.cons_ne_nil _ _)
  branches _ _ hBody hRest := extends_branches hBody hRest
  branchesUnclosed _ := extends_fail (List.cons_ne_nil _ _)
  branchesUnopened _ _ := extends_fail (List.cons_ne_nil _ _)
  otherwiseNone _ := extends_otherwise_none
  otherwise hIs _ hOther := extends_otherwise hIs hOther
  otherwiseUnopened _ _ := extends_fail (List.cons_ne_nil _ _)
  block hIs hBody := accounts_block hIs hBody
  ends hEnds _ := ⟨rfl, hEnds⟩
  next _ hOne hOthers := accounts_next hOne hOthers
  expressionStmt _ _ hExpr := accounts_expressionStmt hp hExpr
  ret hIs hExpr := accounts_ret hp hIs hExpr
  varDecl hIs hName hSign hExpr := accounts_varDecl hp hIs hName hSign hExpr
  varDeclNone hIs hName hSign := accounts_varDecl_none hIs hName hSign
  varDeclUnnamed _ _ := accounts_fail (List.cons_ne_nil _ _)
  varDeclUnassigned _ _ _ _ := accounts_fail (List.cons_ne_nil _ _)

/-- Where reading stops, nothing is left but the mark of the end. -/
theorem contents_of_ends {tokens : List Token} {k : Nat}
    (hEnd : ∀ t ∈ tokens.dropLast, ¬ t.isEnd = true) (h : Ends false (tokens.drop k)) :
    contents (tokens.drop k) = [] := by
  cases hDrop : tokens.drop k with
  | nil => rfl
  | cons t behind =>
    have hIsEnd : t.isEnd = true := by
      rw [hDrop] at h
      simpa using h t rfl
    cases behind with
    | nil => rw [contents_cons_grouping (Token.isGrouping_of_isEnd hIsEnd), contents_nil]
    | cons next behind =>
      have hSplit : tokens = tokens.take k ++ t :: next :: behind := by
        rw [← hDrop, List.take_append_drop]
      have hMem : t ∈ tokens.dropLast := by
        rw [hSplit, List.dropLast_append_cons, List.dropLast_cons_cons]
        simp
      exact absurd hIsEnd (hEnd t hMem)

/-- A program without errors has the content of its tokens, if none of these but the last is a mark
of the end. -/
theorem contents_parse {tokens : List Token} (hEnd : ∀ t ∈ tokens.dropLast, ¬ t.isEnd = true)
    (hClean : (Program.parse tokens).errors = []) :
    bodyContents (Program.parse tokens).statements = contents tokens := by
  have hp := isStandard_ofTokens tokens
  obtain ⟨hContents, hEnds⟩ :=
    (Contract.holdsAt (accounting_respected hp) hp tokens).statements false hClean
  have hSplit : ∀ k, contents tokens = contents (tokens.take k) ++ contents (tokens.drop k) := by
    intro k
    rw [← contents_append, List.take_append_drop]
  rw [hSplit _, contents_of_ends hEnd hEnds, List.append_nil]
  exact hContents

/-- A conditional whose second block is still open at the end. -/
def openEnded : List Token :=
  Reading.default.tokens "if (a == (007)) \x7bvar b = -1; return b;\x7d else \x7bx"

theorem contents_parse_openEnded :
    (∀ t ∈ openEnded.dropLast, ¬ t.isEnd = true) ∧ (Program.parse openEnded).errors = [] ∧
      bodyContents (Program.parse openEnded).statements = contents openEnded :=
  ⟨by decide +kernel, by decide +kernel, contents_parse (by decide +kernel) (by decide +kernel)⟩

end Frontend.Parse
