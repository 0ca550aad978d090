import Frontend.Proofs.Parse.Candor

/-!
# Bounds on a parse

A parse is charged to the tokens that it moves past. A function that goes on from the last token of
a part is charged for the tokens behind it only, so that no token is charged twice. A function that
starts behind the end of the list has no token to be charged to; the function that calls it has one
of its own, since it has moved past at least one.

* `bounded_respected`: every token is charged at most two reports, and one statement.
* `Call.Within`: a call comes to an end within a number of calls, those that it comes to included.
* `counted_respected`: every token is charged at most seven calls.
* `parse_bounded`: the bounds for whole token lists, whatever the tokens are.
-/

namespace Frontend

/-- The number of tokens of a list, a mark of the end left out if the list ends with one. -/
def extent (ts : List Token) : Nat :=
  match ts.getLast? with
  | some t => if t.isEnd then ts.length - 1 else ts.length
  | none => 0

namespace Parse

variable {p : Setting} {ts rest us vs : List Token} {t : Token}

/-! ## The extent of a list -/

theorem extent_singleton_le (t : Token) : extent [t] ≤ 1 := by
  unfold extent
  rw [List.getLast?_singleton]
  dsimp only
  split
  · exact Nat.zero_le 1
  · exact Nat.le_refl 1

theorem extent_cons_of_ne_nil (t : Token) (h : rest ≠ []) :
    extent (t :: rest) = 1 + extent rest := by
  obtain ⟨head, tail, rfl⟩ := List.exists_cons_of_ne_nil h
  unfold extent
  rw [List.getLast?_cons_cons, List.getLast?_eq_some_getLast (List.cons_ne_nil head tail)]
  dsimp only
  split
  · simp only [List.length_cons]
    omega
  · simp only [List.length_cons]
    omega

theorem extent_cons (h : ¬ t.isEnd = true) (rest : List Token) :
    extent (t :: rest) = 1 + extent rest := by
  cases rest with
  | nil =>
    unfold extent
    rw [List.getLast?_singleton]
    exact if_neg h
  | cons head tail => exact extent_cons_of_ne_nil t (List.cons_ne_nil head tail)

theorem extent_drop (k : Nat) (ts : List Token) : extent (ts.drop k) = extent ts - k := by
  induction k generalizing ts with
  | zero => rw [List.drop_zero, Nat.sub_zero]
  | succ k ih =>
    cases ts with
    | nil => rw [List.drop_nil, show extent [] = 0 from rfl, Nat.zero_sub]
    | cons t rest =>
      rw [List.drop_succ_cons, ih]
      cases rest with
      | nil =>
        have hLe := extent_singleton_le t
        have hNil : extent [] = 0 := rfl
        omega
      | cons head tail =>
        rw [extent_cons_of_ne_nil t (List.cons_ne_nil head tail)]
        omega

theorem one_le_extent (hp : p.IsStandard) {s : Symbol} (h : (p.current ts).is s = true) :
    1 ≤ extent ts := by
  obtain ⟨t, rest, rfl, hIs⟩ := hp.exists_cons h
  rw [extent_cons (Token.not_isEnd_of_is hIs)]
  exact Nat.le_add_right 1 _

theorem not_isEnd_of_not_ends {inBlock : Bool} (h : ¬ Ends inBlock (t :: rest)) :
    ¬ t.isEnd = true := by
  intro hEnd
  apply h
  intro t' ht'
  cases ht'
  exact Or.inl hEnd

/-! ## Reports and statements -/

/-- What each parsing function may report for the tokens that it moves past, the one at the place
included if the function begins there. -/
def bounded : Contract where
  expression ts _ s := s.errors.length ≤ max 1 (2 * min (s.moved + 1) (extent ts))
  operators ts _ _ s := s.errors.length ≤ 2 * min s.moved (extent ts - 1)
  operand ts s := s.errors.length ≤ 2 * min (s.moved + 1) (extent ts)
  branches ts _ s := s.errors.length ≤ 2 * min s.moved (extent ts - 1) + 1
  otherwise ts _ _ s := s.errors.length ≤ 2 * min s.moved (extent ts - 1)
  block ts s := s.errors.length ≤ 2 * min (s.moved + 1) (extent ts)
  statements ts _ s := s.errors.length ≤ 2 * min s.moved (extent ts) ∧
    s.value.length ≤ min s.moved (extent ts)
  statement ts s := s.errors.length ≤ max 1 (2 * min (s.moved + 1) (extent ts))

theorem length_closing_le {α : Type} (p : Setting) (s : Symbol) (fault : String → Fault)
    (ts : List Token) (part : Step (Option α)) :
    (closing p s fault ts part).errors.length ≤ part.errors.length + 1 := by
  by_cases hNext : (p.next (ts.drop part.moved)).is s = true
  · rw [closing_found hNext]
    exact Nat.le_succ _
  · rw [closing_missing hNext, List.length_append]
    exact Nat.le_refl _

/-- A closing symbol that is missing is charged to the token in front of the part. -/
theorem length_closed_le {α : Type} {k n : Nat} {part : Step (Option α)}
    (h : part.errors.length ≤ max 1 (2 * min (part.moved + 1) n)) (p : Setting) (s : Symbol)
    (fault : String → Fault) (ts : List Token) (hk : part.moved ≤ k) :
    (closing p s fault ts part).errors.length ≤ 2 * min (1 + k + 1) (1 + n) := by
  have hLength := length_closing_le p s fault ts part
  omega

theorem BuiltOrFault.length_le {s : Step (Option Expr)} (h : BuiltOrFault t s) :
    s.errors.length ≤ 1 := by
  rcases h with ⟨e, rfl⟩ | ⟨f, rfl⟩
  · exact Nat.zero_le 1
  · exact Nat.le_refl 1

theorem bounded_respected (hp : p.IsStandard) : bounded.Respected p where
  noOperand _ := Nat.le_max_left 1 _
  opened {t rest floor first s rule} _ hFirst hRest := by
    simp only [bounded, extent_drop] at hFirst hRest
    show (first.errors ++ s.errors).length ≤
      max 1 (2 * min (first.moved + s.moved + 1) (extent (t :: rest)))
    rw [List.length_append]
    omega
  stop _ := Nat.zero_le _
  fold {head t rest floor left right s op} hOp _ hRight hRest := by
    simp only [bounded, extent_drop] at hRight hRest
    show (right.errors ++ s.errors).length ≤
      2 * min (2 + right.moved + s.moved) (extent (head :: t :: rest) - 1)
    rw [List.length_append, extent_cons_of_ne_nil head (List.cons_ne_nil t rest),
      extent_cons (Token.not_isEnd_of_is hOp)]
    omega
  integer {t rest} h := by
    refine Nat.le_trans (builtOrFault_integer t).length_le ?_
    rw [extent_cons (Opening.integer h).not_isEnd]
    omega
  truth {t rest} h := by
    refine Nat.le_trans (builtOrFault_truth t).length_le ?_
    rw [extent_cons (Opening.truth h).not_isEnd]
    omega
  name _ := Nat.zero_le _
  unary {t rest s op} hOp hOperand := by
    simp only [bounded] at hOperand
    show s.errors.length ≤ 2 * min (1 + s.moved + 1) (extent (t :: rest))
    rw [extent_cons (Token.not_isEnd_of_is hOp)]
    omega
  group {t rest s} hOpen hInner := by
    show (closing p _ _ rest s).errors.length ≤
      2 * min (1 + (closing p _ _ rest s).moved + 1) (extent (t :: rest))
    rw [extent_cons (Token.not_isEnd_of_is hOpen)]
    exact length_closed_le hInner p _ _ rest (moved_le_closing p _ _ rest s)
  cond {t rest condition s} hIf hOpen hCondition hRest := by
    -- The condition has a token of its own, so that a report at its end is charged to `if`.
    simp only [bounded, extent_drop] at hCondition hRest
    have hPos : 1 ≤ extent rest := one_le_extent hp hOpen
    show (condition.errors ++ s.errors).length ≤
      2 * min (1 + condition.moved + s.moved + 1) (extent (t :: rest))
    rw [List.length_append, extent_cons (Token.not_isEnd_of_is hIf)]
    omega
  condUnopened {t rest} hIf _ := by
    show 1 ≤ 2 * min (0 + 1) (extent (t :: rest))
    rw [extent_cons (Token.not_isEnd_of_is hIf)]
    omega
  branches {close opening rest condition body s} hClose hOpening hBody hRest := by
    simp only [bounded, extent_drop] at hBody hRest
    show (body.errors ++ s.errors).length ≤
      2 * min (1 + body.moved + s.moved) (extent (close :: opening :: rest) - 1) + 1
    rw [List.length_append, extent_cons (Token.not_isEnd_of_is hClose)]
    omega
  branchesUnclosed _ := Nat.le_add_left 1 _
  branchesUnopened _ _ := Nat.le_add_left 1 _
  otherwiseNone _ := Nat.zero_le _
  otherwise {last word opening rest condition body other} hElse hOpening hOther := by
    simp only [bounded] at hOther
    show other.errors.length ≤
      2 * min (2 + other.moved) (extent (last :: word :: opening :: rest) - 1)
    rw [extent_cons_of_ne_nil last (List.cons_ne_nil _ _),
      extent_cons (Token.not_isEnd_of_is hElse)]
    omega
  otherwiseUnopened {ts condition body} hElse hOpening := by
    obtain ⟨last, word, rest, rfl, hWord⟩ := hp.exists_cons_next hElse
    show 1 ≤ 2 * min (1 + 0) (extent (last :: word :: rest) - 1)
    rw [extent_cons_of_ne_nil last (List.cons_ne_nil _ _),
      extent_cons (Token.not_isEnd_of_is hWord)]
    omega
  block {t rest s} hOpen hBody := by
    have hReports : s.errors.length ≤ 2 * min s.moved (extent rest) := hBody.1
    show s.errors.length ≤ 2 * min (1 + s.moved + 1) (extent (t :: rest))
    rw [extent_cons (Token.not_isEnd_of_is hOpen)]
    omega
  ends _ := ⟨Nat.zero_le _, Nat.zero_le _⟩
  next {t rest inBlock one others} hEnds hOne hOthers := by
    simp only [bounded, extent_drop] at hOne hOthers
    obtain ⟨hReports, hValue⟩ := hOthers
    have hValueOne : one.value.toList.length ≤ 1 := Option.length_toList_le
    show (one.errors ++ others.errors).length ≤
        2 * min (one.moved + 1 + others.moved) (extent (t :: rest)) ∧
      (one.value.toList ++ others.value).length ≤
        min (one.moved + 1 + others.moved) (extent (t :: rest))
    rw [extent_cons (not_isEnd_of_not_ends hEnds)] at hOne ⊢
    rw [List.length_append, List.length_append]
    omega
  expressionStmt {ts s} _ _ hValue := by
    simp only [bounded] at hValue
    show s.errors.length ≤ max 1 (2 * min (s.moved + _ + 1) (extent ts))
    omega
  ret {t rest s} hReturn hValue := by
    show (closing p _ _ rest s).errors.length ≤
      max 1 (2 * min (1 + (closing p _ _ rest s).moved + 1) (extent (t :: rest)))
    rw [extent_cons (Token.not_isEnd_of_is hReturn)]
    exact Nat.le_trans (length_closed_le hValue p _ _ rest (moved_le_closing p _ _ rest s))
      (Nat.le_max_right 1 _)
  varDecl {t word sign rest s} hVar hName hSign hValue := by
    have hMoved := moved_le_closing p .semicolon (.missingSemicolon "var") rest s
    have hClosed := length_closed_le hValue p .semicolon (.missingSemicolon "var") rest hMoved
    show (closing p _ _ rest s).errors.length ≤
      max 1 (2 * min (3 + (closing p _ _ rest s).moved + 1) (extent (t :: word :: sign :: rest)))
    rw [extent_cons (Token.not_isEnd_of_is hVar),
      extent_cons_of_ne_nil word (List.cons_ne_nil _ _),
      extent_cons (Token.not_isEnd_of_is hSign)]
    omega
  varDeclNone _ _ _ := Nat.zero_le _
  varDeclUnnamed _ _ := Nat.le_max_left 1 _
  varDeclUnassigned _ _ _ _ := Nat.le_max_left 1 _

/-! ## Calls -/

namespace Call

/-- How many calls are allowed for the listed calls together. -/
def allowance : List (Nat × List Token × Call) → Nat
  | [] => 0
  | call :: rest => call.1 + allowance rest

/-- The call comes to an end within the number of calls: the calls that it makes can be listed, and
each comes to an end within a number of calls, which add up to less. -/
inductive Within (p : Setting) : Nat → List Token → Call → Prop
  | intro {n ts c} (calls : List (Nat × List Token × Call)) :
    (∀ us d, Makes p ts c us d → ∃ k, (k, us, d) ∈ calls) →
    (∀ k us d, (k, us, d) ∈ calls → Within p k us d) →
    allowance calls < n → Within p n ts c

variable {c d e : Call} {j k n : Nat}

theorem Within.mono (h : Within p j ts c) (hLe : j ≤ n) : Within p n ts c := by
  cases h with
  | intro calls hMakes hCalls hSum =>
    exact .intro calls hMakes hCalls (Nat.lt_of_lt_of_le hSum hLe)

theorem within_none (h : ∀ us d, ¬ Makes p ts c us d) (hPos : 0 < n) : Within p n ts c := by
  refine .intro [] ?_ ?_ hPos
  · intro us d hMakes
    exact absurd hMakes (h us d)
  · intro k us d hMem
    exact absurd hMem List.not_mem_nil

theorem within_one (hMakes : ∀ ws f, Makes p ts c ws f → ws = us ∧ f = d) (h : Within p k us d)
    (hLt : k < n) : Within p n ts c := by
  refine .intro [(k, us, d)] ?_ ?_ hLt
  · intro ws f hMake
    obtain ⟨rfl, rfl⟩ := hMakes ws f hMake
    exact ⟨k, List.mem_singleton_self _⟩
  · intro i ws f hMem
    cases List.mem_singleton.1 hMem
    exact h

theorem within_two
    (hMakes : ∀ ws f, Makes p ts c ws f → (ws = us ∧ f = d) ∨ (ws = vs ∧ f = e))
    (h : Within p j us d) (h' : Within p k vs e) (hLt : j + k < n) : Within p n ts c := by
  refine .intro [(j, us, d), (k, vs, e)] ?_ ?_ hLt
  · intro ws f hMake
    rcases hMakes ws f hMake with ⟨rfl, rfl⟩ | ⟨rfl, rfl⟩
    · exact ⟨j, List.mem_cons_self⟩
    · exact ⟨k, List.mem_cons_of_mem _ (List.mem_singleton_self _)⟩
  · intro i ws f hMem
    rcases List.mem_cons.1 hMem with hEq | hMem
    · cases hEq
      exact h
    · cases List.mem_singleton.1 hMem
      exact h'

end Call

open Call (Within within_none within_one within_two Makes)

/-- Within how many calls each parsing function ends, by the tokens that it moves past. The results
are those of the functions themselves. -/
def counted (p : Setting) : Contract where
  expression ts floor s := s = expression p ts floor ∧
    Within p (max 1 (7 * min (s.moved + 1) ts.length - 3)) ts (.expression floor)
  operators ts floor left s := s = operators p ts floor left ∧
    Within p (7 * min s.moved (ts.length - 1) + 1) ts (.operators floor left)
  operand ts s := ∀ rule, Opening (p.current ts) rule → s = operand p ts rule ∧
    Within p (7 * min (s.moved + 1) ts.length - 5) ts (.operand rule)
  branches ts condition s := s = branches p ts condition ∧
    Within p (7 * min s.moved (ts.length - 1) + 2) ts (.branches condition)
  otherwise ts condition body s := s = otherwise p ts condition body ∧
    Within p (7 * min s.moved (ts.length - 1) + 1) ts (.otherwise condition body)
  block ts s := s = block p ts ∧ Within p (7 * min (s.moved + 1) ts.length) ts .block
  statements ts inBlock s := s = statements p ts inBlock ∧
    Within p (7 * min s.moved ts.length + 1) ts (.statements inBlock)
  statement ts s := s = statement p ts ∧
    (ts ≠ [] → Within p (7 * min (s.moved + 1) ts.length - 1) ts .statement)

theorem counted_fold (hp : p.IsStandard) {head : Token} {floor : BindingPower}
    {left : Option Expr} {right s : Step (Option Expr)} {op : BinaryOp}
    (hOp : t.is op.symbol = true) (hFloor : floor < op.power)
    (hRight : (counted p).expression rest op.power right)
    (hRest : (counted p).operators (rest.drop right.moved) floor (combine op left right.value) s) :
    (counted p).operators (head :: t :: rest) floor left
      (s.after (2 + right.moved) right.errors) := by
  obtain ⟨rfl, hRight⟩ := hRight
  obtain ⟨rfl, hRest⟩ := hRest
  have hBinary : binary p (t :: rest) left op.power =
      ⟨combine op left (expression p rest op.power).value, 1 + (expression p rest op.power).moved,
        (expression p rest op.power).errors⟩ := binary_of_is hOp
  have hDrop : (t :: rest).drop (binary p (t :: rest) left op.power).moved =
      rest.drop (expression p rest op.power).moved := by
    rw [hBinary, Nat.add_comm 1, List.drop_succ_cons]
  have hWithin : Within p (max 1 (7 * min ((expression p rest op.power).moved + 1) rest.length - 3)
      + 1) (t :: rest) (.binary left op.power) := by
    refine within_one ?_ hRight (Nat.lt_succ_self _)
    intro ws f hMakes
    cases hMakes
    exact ⟨rfl, rfl⟩
  refine ⟨(operators_fold hp hOp hFloor).symm, within_two ?_ hWithin hRest ?_⟩
  · intro ws f hMakes
    cases hMakes with
    | fold hOp' _ =>
      cases binaryOp_unique hOp hOp'
      exact Or.inl ⟨rfl, rfl⟩
    | furtherOperators hOp' _ =>
      cases binaryOp_unique hOp hOp'
      rw [hDrop, hBinary]
      exact Or.inr ⟨rfl, rfl⟩
  · simp only [Step.moved_after, List.length_cons, List.length_drop]
    omega

theorem counted_opened (hp : p.IsStandard) {floor : BindingPower} {first s : Step (Option Expr)}
    {rule : OperandRule} (hOpening : Opening t rule)
    (hFirst : (counted p).operand (t :: rest) first)
    (hRest : (counted p).operators ((t :: rest).drop first.moved) floor first.value s) :
    (counted p).expression (t :: rest) floor (s.after first.moved first.errors) := by
  obtain ⟨rfl, hFirst⟩ := hFirst rule hOpening
  obtain ⟨rfl, hRest⟩ := hRest
  refine ⟨(expression_of_opening hp hOpening).symm, within_two ?_ hFirst hRest ?_⟩
  · intro ws f hMakes
    cases hMakes with
    | first hOpening' =>
      cases hOpening.unique hOpening'
      exact Or.inl ⟨rfl, rfl⟩
    | furtherOperands hOpening' =>
      cases hOpening.unique hOpening'
      exact Or.inr ⟨rfl, rfl⟩
  · simp only [Step.moved_after, List.length_cons, List.length_drop]
    omega

theorem counted_cond (hp : p.IsStandard) {condition s : Step (Option Expr)}
    (hIf : t.is .ifWord = true) (hOpen : (p.current rest).is .openParen = true)
    (hCondition : (counted p).expression rest .lowest condition)
    (hRest : (counted p).branches (rest.drop condition.moved) condition.value s) :
    (counted p).operand (t :: rest) (s.after (1 + condition.moved) condition.errors) := by
  intro rule hOpening
  cases hOpening.unique (.cond hIf)
  obtain ⟨rfl, hCondition⟩ := hCondition
  obtain ⟨rfl, hRest⟩ := hRest
  refine ⟨(operand_cond hOpen).symm, within_two ?_ hCondition hRest ?_⟩
  · intro ws f hMakes
    cases hMakes with
    | condition _ => exact Or.inl ⟨rfl, rfl⟩
    | branches _ => exact Or.inr ⟨rfl, rfl⟩
  · obtain ⟨head, tail, rfl, -⟩ := hp.exists_cons hOpen
    simp only [Step.moved_after, List.length_cons, List.length_drop]
    omega

theorem counted_branches {close opening : Token} {condition : Option Expr}
    {body : Step (List Stmt)} {s : Step (Option Expr)} (hClose : close.is .closeParen = true)
    (hOpening : opening.is .openCurly = true) (hBody : (counted p).block (opening :: rest) body)
    (hRest : (counted p).otherwise ((opening :: rest).drop body.moved) condition body.value s) :
    (counted p).branches (close :: opening :: rest) condition
      (s.after (1 + body.moved) body.errors) := by
  obtain ⟨rfl, hBody⟩ := hBody
  obtain ⟨rfl, hRest⟩ := hRest
  refine ⟨(branches_cons hClose hOpening).symm, within_two ?_ hBody hRest ?_⟩
  · intro ws f hMakes
    cases hMakes with
    | body _ _ => exact Or.inl ⟨rfl, rfl⟩
    | otherwise _ _ => exact Or.inr ⟨rfl, rfl⟩
  · simp only [Step.moved_after, List.length_cons, List.length_drop]
    omega

theorem counted_next {inBlock : Bool} {one : Step (Option Stmt)} {others : Step (List Stmt)}
    (hEnds : ¬ Ends inBlock (t :: rest)) (hOne : (counted p).statement (t :: rest) one)
    (hOthers : (counted p).statements (rest.drop one.moved) inBlock others) :
    (counted p).statements (t :: rest) inBlock
      ⟨one.value.toList ++ others.value, one.moved + 1 + others.moved,
        one.errors ++ others.errors⟩ := by
  obtain ⟨rfl, hOne⟩ := hOne
  obtain ⟨rfl, hOthers⟩ := hOthers
  refine ⟨(statements_cons hEnds).symm,
    within_two ?_ (hOne (List.cons_ne_nil _ _)) hOthers ?_⟩
  · intro ws f hMakes
    cases hMakes with
    | one _ => exact Or.inl ⟨rfl, rfl⟩
    | furtherStatements _ => exact Or.inr ⟨rfl, rfl⟩
  · simp only [List.length_cons, List.length_drop]
    omega

/-! A statement is one of three constructs, by its first token. -/

theorem within_varDecl {k n : Nat} (hVar : (p.current ts).is .varWord = true)
    (h : Within p k ts (.construct .varDecl)) (hLt : k < n) : Within p n ts .statement := by
  refine within_one ?_ h hLt
  intro ws f hMakes
  cases hMakes with
  | varDecl _ => exact ⟨rfl, rfl⟩
  | ret hReturn => cases Token.is_unique hVar hReturn
  | expressionStmt hVar' _ => exact absurd hVar hVar'

theorem within_ret {k n : Nat} (hReturn : (p.current ts).is .returnWord = true)
    (h : Within p k ts (.construct .ret)) (hLt : k < n) : Within p n ts .statement := by
  refine within_one ?_ h hLt
  intro ws f hMakes
  cases hMakes with
  | varDecl hVar => cases Token.is_unique hVar hReturn
  | ret _ => exact ⟨rfl, rfl⟩
  | expressionStmt _ hReturn' => exact absurd hReturn hReturn'

theorem within_expressionStmt {k n : Nat} (hVar : ¬ (p.current ts).is .varWord = true)
    (hReturn : ¬ (p.current ts).is .returnWord = true) (h : Within p k ts (.construct .expr))
    (hLt : k < n) : Within p n ts .statement := by
  refine within_one ?_ h hLt
  intro ws f hMakes
  cases hMakes with
  | varDecl hVar' => exact absurd hVar' hVar
  | ret hReturn' => exact absurd hReturn' hReturn
  | expressionStmt _ _ => exact ⟨rfl, rfl⟩

/-- A declaration that comes to no expression. -/
theorem within_varDecl_unassigned {n : Nat} (hVar : t.is .varWord = true)
    (hNone : (p.current rest).tokenClass = .identifier → ¬ (p.next rest).is .assignment = true)
    (hLt : 2 ≤ n) : Within p n (t :: rest) .statement := by
  refine within_varDecl hVar (within_none ?_ Nat.zero_lt_one) hLt
  intro us d hMakes
  cases hMakes with
  | assigned hName hSign => exact hNone hName hSign

theorem counted_respected (hp : p.IsStandard) : (counted p).Respected p where
  noOperand {ts floor} hNone := by
    refine ⟨(expression_of_noOperand hp hNone).symm, within_none ?_ (by omega)⟩
    intro us d hMakes
    cases hMakes with
    | first hOpening => exact hNone _ hOpening
    | furtherOperands hOpening => exact hNone _ hOpening
  opened hOpening hFirst hRest := counted_opened hp hOpening hFirst hRest
  stop {ts floor left} hStop := by
    refine ⟨(operators_stop hStop).symm, within_none ?_ (Nat.succ_pos _)⟩
    intro us d hMakes
    cases hMakes with
    | fold hOp hFloor =>
      apply hStop
      rwa [hp.grammar, Setting.next_cons, Setting.current_cons, power_of_is hOp]
    | furtherOperators hOp hFloor =>
      apply hStop
      rwa [hp.grammar, Setting.next_cons, Setting.current_cons, power_of_is hOp]
  fold hOp hFloor hRight hRest := counted_fold hp hOp hFloor hRight hRest
  integer {t rest} h := by
    intro rule hOpening
    cases hOpening.unique (.integer h)
    refine ⟨operand_integer.symm, within_none (fun us d hMakes => nomatch hMakes) ?_⟩
    simp only [List.length_cons]
    omega
  truth {t rest} h := by
    intro rule hOpening
    cases hOpening.unique (.truth h)
    refine ⟨operand_truth.symm, within_none (fun us d hMakes => nomatch hMakes) ?_⟩
    simp only [List.length_cons]
    omega
  name {t rest} h := by
    intro rule hOpening
    cases hOpening.unique (.name h)
    refine ⟨operand_name.symm, within_none (fun us d hMakes => nomatch hMakes) ?_⟩
    simp only [List.length_cons]
    omega
  unary {t rest s op} hOp hOperand := by
    intro rule hOpening
    cases hOpening.unique (.unary op hOp)
    obtain ⟨rfl, hOperand⟩ := hOperand
    refine ⟨(operand_unary hOp).symm, within_one ?_ hOperand ?_⟩
    · intro ws f hMakes
      cases hMakes
      exact ⟨rfl, rfl⟩
    · simp only [Step.moved_after, Step.moved_build, List.length_cons]
      omega
  group {t rest s} hOpen hInner := by
    intro rule hOpening
    cases hOpening.unique (.group hOpen)
    obtain ⟨rfl, hInner⟩ := hInner
    refine ⟨operand_group.symm, within_one ?_ hInner ?_⟩
    · intro ws f hMakes
      cases hMakes
      exact ⟨rfl, rfl⟩
    · have hMoved := moved_le_closing p .closeParen (.missingClosingParen "grouped expression") rest
        (expression p rest .lowest)
      simp only [Step.moved_after, List.length_cons]
      omega
  cond hIf hOpen hCondition hRest := counted_cond hp hIf hOpen hCondition hRest
  condUnopened {t rest} hIf hOpen := by
    intro rule hOpening
    cases hOpening.unique (.cond hIf)
    have hNext : ¬ (p.next (t :: rest)).is .openParen = true := hOpen
    refine ⟨(operand_cond_unopened hNext).symm, within_none ?_ ?_⟩
    · intro us d hMakes
      cases hMakes with
      | condition hOpen' => exact hOpen hOpen'
      | branches hOpen' => exact hOpen hOpen'
    · simp only [List.length_cons]
      omega
  branches hClose hOpening hBody hRest := counted_branches hClose hOpening hBody hRest
  branchesUnclosed {ts condition} hClose := by
    refine ⟨(branches_unclosed hClose).symm, within_none ?_ (Nat.succ_pos _)⟩
    intro us d hMakes
    cases hMakes with
    | body hClose' _ => exact hClose hClose'
    | otherwise hClose' _ => exact hClose hClose'
  branchesUnopened {ts condition} hClose hOpening := by
    refine ⟨(branches_unopened hClose hOpening).symm, within_none ?_ (Nat.succ_pos _)⟩
    intro us d hMakes
    cases hMakes with
    | body _ hOpening' => exact hOpening hOpening'
    | otherwise _ hOpening' => exact hOpening hOpening'
  otherwiseNone {ts condition body} hElse := by
    refine ⟨(otherwise_none hElse).symm, within_none ?_ (Nat.succ_pos _)⟩
    intro us d hMakes
    cases hMakes with
    | other hElse' _ => exact hElse hElse'
  otherwise {last word opening rest condition body other} hElse hOpening hOther := by
    obtain ⟨rfl, hOther⟩ := hOther
    refine ⟨(otherwise_some hElse hOpening).symm, within_one ?_ hOther ?_⟩
    · intro ws f hMakes
      cases hMakes
      exact ⟨rfl, rfl⟩
    · simp only [List.length_cons]
      omega
  otherwiseUnopened {ts condition body} hElse hOpening := by
    refine ⟨(otherwise_unopened hElse hOpening).symm, within_none ?_ (Nat.succ_pos _)⟩
    intro us d hMakes
    cases hMakes with
    | other _ hOpening' => exact hOpening hOpening'
  block {t rest s} _ hBody := by
    obtain ⟨rfl, hBody⟩ := hBody
    refine ⟨block_cons.symm, within_one ?_ hBody ?_⟩
    · intro ws f hMakes
      cases hMakes
      exact ⟨rfl, rfl⟩
    · simp only [Step.moved_after, List.length_cons]
      omega
  ends {ts inBlock} hEnds := by
    refine ⟨(statements_of_ends hEnds).symm, within_none ?_ (Nat.succ_pos _)⟩
    intro us d hMakes
    cases hMakes with
    | one hNot => exact hNot hEnds
    | furtherStatements hNot => exact hNot hEnds
  next hEnds hOne hOthers := counted_next hEnds hOne hOthers
  expressionStmt {ts s} hVar hReturn hValue := by
    obtain ⟨rfl, hValue⟩ := hValue
    refine ⟨?_, ?_⟩
    · rw [statement_expr hp hVar hReturn, expressionStmt_eq]
    · intro hNil
      have hPos := List.length_pos_iff.2 hNil
      refine within_expressionStmt hVar hReturn (within_one ?_ hValue (Nat.lt_succ_self _)) ?_
      · intro ws f hMakes
        cases hMakes
        exact ⟨rfl, rfl⟩
      · dsimp only
        omega
  ret {t rest s} hReturn hValue := by
    obtain ⟨rfl, hValue⟩ := hValue
    refine ⟨(statement_ret hp hReturn).symm, fun _ => ?_⟩
    refine within_ret hReturn (within_one ?_ hValue (Nat.lt_succ_self _)) ?_
    · intro ws f hMakes
      cases hMakes
      exact ⟨rfl, rfl⟩
    · have hMoved := moved_le_closing p .semicolon (.missingSemicolon "return") rest
        (expression p rest .lowest)
      simp only [Step.moved_after, Step.moved_build, List.length_cons]
      omega
  varDecl {t word sign rest s} hVar hName hSign hValue := by
    obtain ⟨rfl, hValue⟩ := hValue
    refine ⟨?_, fun _ => ?_⟩
    · rw [statement_varDecl hp hVar, varDecl_some hName hSign]
    · refine within_varDecl hVar (within_one ?_ hValue (Nat.lt_succ_self _)) ?_
      · intro ws f hMakes
        cases hMakes
        exact ⟨rfl, rfl⟩
      · have hMoved := moved_le_closing p .semicolon (.missingSemicolon "var") rest
          (expression p rest .lowest)
        simp only [Step.moved_after, Step.moved_build, List.length_cons]
        omega
  varDeclNone {t word sign rest} hVar hName hSign := by
    refine ⟨?_, fun _ => within_varDecl_unassigned hVar ?_ ?_⟩
    · rw [statement_varDecl hp hVar, varDecl_none hName hSign]
    · intro _ hAssignment
      cases Token.is_unique hSign hAssignment
    · simp only [List.length_cons]
      omega
  varDeclUnnamed {t rest} hVar hName := by
    refine ⟨?_, fun _ => within_varDecl_unassigned hVar (fun h => absurd h hName) ?_⟩
    · have hNext : (p.next (t :: rest)).tokenClass ≠ .identifier := hName
      rw [statement_varDecl hp hVar, varDecl_unnamed hNext]
      rfl
    · simp only [List.length_cons]
      omega
  varDeclUnassigned {t rest} hVar hName hSemicolon hAssignment := by
    refine ⟨?_, fun _ => within_varDecl_unassigned hVar (fun _ => hAssignment) ?_⟩
    · have hNext : (p.next (t :: rest)).tokenClass = .identifier := hName
      have hSemicolon' : ¬ (p.next ((t :: rest).drop 1)).is .semicolon = true := hSemicolon
      have hAssignment' : ¬ (p.next ((t :: rest).drop 1)).is .assignment = true := hAssignment
      rw [statement_varDecl hp hVar, varDecl_unassigned hNext hSemicolon' hAssignment']
      rfl
    · simp only [List.length_cons]
      omega

/-! ## Whole parses -/

/-- A first statement is built, or it is reported why it is not. -/
theorem statements_or_errors_ne_nil (hp : p.IsStandard) {inBlock : Bool}
    (h : ¬ Ends inBlock (t :: rest)) :
    (statements p (t :: rest) inBlock).value ≠ [] ∨
      (statements p (t :: rest) inBlock).errors ≠ [] := by
  rw [statements_cons h]
  cases hOne : (statement p (t :: rest)).value with
  | some s => exact Or.inl (List.cons_ne_nil _ _)
  | none =>
    refine Or.inr ?_
    intro hClean
    exact (candid_statement hp (t :: rest)).reports hOne (List.append_eq_nil_iff.1 hClean).1

/-- A parse comes to an end within a number of calls, reports and builds no more than its tokens
allow, and never passes over a first token in silence, whatever the tokens are. -/
theorem parse_bounded (tokens : List Token) :
    Within (.ofTokens tokens) (7 * tokens.length + 1) tokens (.statements false) ∧
      (Program.parse tokens).errors.length ≤ 2 * extent tokens ∧
      (Program.parse tokens).statements.length ≤ extent tokens ∧
      ∀ t ∈ tokens.head?, t.isEnd = false →
        (Program.parse tokens).statements ≠ [] ∨ (Program.parse tokens).errors ≠ [] := by
  have hp := isStandard_ofTokens tokens
  obtain ⟨hErrors, hStatements⟩ :=
    (Contract.holdsAt (bounded_respected hp) hp tokens).statements false
  obtain ⟨-, hWithin⟩ := (Contract.holdsAt (counted_respected hp) hp tokens).statements false
  refine ⟨hWithin.mono ?_, ?_, ?_, ?_⟩
  · omega
  · refine Nat.le_trans hErrors ?_
    omega
  · exact Nat.le_trans hStatements (Nat.min_le_right _ _)
  · intro t hHead hEnd
    obtain ⟨rest, rfl⟩ := List.head?_eq_some_iff.1 hHead
    apply statements_or_errors_ne_nil hp
    intro hEnds
    rcases hEnds t rfl with hEnd' | ⟨hBlock, -⟩
    · rw [hEnd] at hEnd'
      cases hEnd'
    · cases hBlock

/-- A lone operator, with no mark of the end behind it: the eight calls are all made. -/
theorem parse_bounded_dash :
    Within (.ofTokens [⟨.operator, "-", .null⟩]) 8 [⟨.operator, "-", .null⟩] (.statements false) ∧
      ((Program.parse [⟨.operator, "-", .null⟩]).statements ≠ [] ∨
        (Program.parse [⟨.operator, "-", .null⟩]).errors ≠ []) := by
  obtain ⟨hWithin, -, -, hReported⟩ := parse_bounded [⟨.operator, "-", .null⟩]
  exact ⟨hWithin, hReported _ rfl rfl⟩

end Parse

end Frontend
