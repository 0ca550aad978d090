import Frontend.Proofs.Parse.Balance
import Frontend.Tree.Equality

/-!
# Where a block ends

A parse moves over the tokens one by one. Nearly all of them it takes in as parts of a construct, and
those are nested as the blocks are. But a token that begins no operand is reported where an operand
is missing, and the parse goes on behind it; so does it behind a token in the place of the opening
brace of a conditional. If such a stray token is a brace, it is passed without being counted.

* `Walk`: what a parse makes of the tokens that it moves over, and of which it reports that they are
  stray.
* `nesting_respected`: each way to a result walks inwards, and comes back if the input does not end
  on the way.
* `moved_block`: a block ends at the brace that closes it when the stray tokens are not counted. So it
  ends at its own brace if no stray brace is reported.
-/

namespace Frontend

/-- The faults of tokens that a parse moves over without taking them in. -/
def Fault.isStray : Fault → Bool
  | .noOperand _ => true
  | .missingOpeningCurly context _ => context = "if expression"
  | _ => false

/-- The fault of a stray token that is written as a brace. -/
def Fault.isStrayBrace : Fault → Bool
  | .noOperand token => token = "\x7b" ∨ token = "\x7d"
  | .missingOpeningCurly context token => context = "if expression" ∧ token = "\x7d"
  | _ => false

namespace Parse

/-- What is reported of a stray token: that it begins no operand, or that it begins no block. -/
inductive StrayFault (t : Token) : Fault → Prop
  | noOperand : (∀ rule, ¬ Opening t rule) → StrayFault t (.noOperand t.describe)
  | noBlock : ¬ t.is .openCurly = true →
    StrayFault t (.missingOpeningCurly "if expression" t.describe)

/-- What a parse makes of the tokens that it moves over: each turns as it does by itself if it is
taken in, and not at all if it is reported as stray. -/
inductive Walk (p : Setting) : List Token → List Int → List Diagnostic → Prop
  | nil {ts} : Walk p ts [] []
  | taken {ts turns errors} : Walk p (ts.drop 1) turns errors →
    Walk p ts ((p.current ts).turn :: turns) errors
  | stray {ts turns errors f} : StrayFault (p.current ts) f → Walk p (ts.drop 1) turns errors →
    Walk p ts (0 :: turns) (faultAt (p.current ts) f :: errors)
  | report {ts turns errors d} : d.fault.isStray = false → Walk p ts turns errors →
    Walk p ts turns (d :: errors)

/-- The input does not end on the first tokens. -/
def Unended (p : Setting) (ts : List Token) (n : Nat) : Prop :=
  ∀ i, i < n → ¬ (p.current (ts.drop i)).isEnd = true

/-- A walk that never leads out of the blocks it begins in. If it leaves a block open, the input ends
on the way. -/
structure Nested (p : Setting) (ts : List Token) (turns : List Int) (errors : List Diagnostic) :
    Prop where
  walk : Walk p ts turns errors
  inward : Inward turns
  closed : Unended p ts turns.length → height turns = 0

/-- The first tokens are passed so. -/
def Nests (p : Setting) (ts : List Token) (n : Nat) (errors : List Diagnostic) : Prop :=
  ∃ turns, turns.length = n ∧ Nested p ts turns errors

/-- The tokens of a block: the parse is within it until the last of them. -/
def NestsWithin (p : Setting) (ts : List Token) (n : Nat) (errors : List Diagnostic) : Prop :=
  ∃ turns, turns.length = n + 1 ∧ Nested p ts turns errors ∧
    ∀ k, 0 < k → k ≤ n → 0 < height (turns.take k)

/-- How each parsing function passes the tokens that it moves over. -/
def nesting (p : Setting) : Contract where
  expression ts _ s := Nests p ts (s.moved + 1) s.errors
  operators ts _ _ s := Nests p (ts.drop 1) s.moved s.errors
  operand ts s := Nests p ts (s.moved + 1) s.errors
  branches ts _ s := Nests p (ts.drop 1) s.moved s.errors
  otherwise ts _ _ s := Nests p (ts.drop 1) s.moved s.errors
  block ts s := NestsWithin p ts s.moved s.errors
  statements ts inBlock s := Nests p ts s.moved s.errors ∧ Ends inBlock (ts.drop s.moved)
  statement ts s := Nests p ts (s.moved + 1) s.errors

variable {p : Setting} {t : Token} {ts rest : List Token} {turns turns' : List Int}
  {errors errors' : List Diagnostic} {m n : Nat}

/-! ## Walks -/

theorem Walk.append (h : Walk p ts turns errors)
    (h' : Walk p (ts.drop turns.length) turns' errors') :
    Walk p ts (turns ++ turns') (errors ++ errors') := by
  induction h with
  | nil => exact h'
  | taken _ ih =>
    refine .taken (ih ?_)
    rwa [List.drop_drop, Nat.add_comm]
  | stray hStray _ ih =>
    refine .stray hStray (ih ?_)
    rwa [List.drop_drop, Nat.add_comm]
  | report hReport _ ih => exact .report hReport (ih h')

theorem unended_add : Unended p ts (m + n) ↔ Unended p ts m ∧ Unended p (ts.drop m) n := by
  constructor
  · intro h
    refine ⟨fun i hi => h i (by omega), fun i hi => ?_⟩
    rw [List.drop_drop]
    exact h (m + i) (by omega)
  · rintro ⟨hFirst, hSecond⟩ i hi
    by_cases hLt : i < m
    · exact hFirst i hLt
    · have hAt := hSecond (i - m) (by omega)
      rwa [List.drop_drop, Nat.add_sub_cancel' (Nat.le_of_not_lt hLt)] at hAt

theorem Unended.of_le (h : Unended p ts n) (hLe : m ≤ n) : Unended p ts m :=
  fun i hi => h i (Nat.lt_of_lt_of_le hi hLe)

theorem Nested.append (h : Nested p ts turns errors)
    (h' : Nested p (ts.drop turns.length) turns' errors') :
    Nested p ts (turns ++ turns') (errors ++ errors') := by
  refine ⟨h.walk.append h'.walk, h.inward.append h'.inward, ?_⟩
  intro hUnended
  rw [List.length_append, unended_add] at hUnended
  rw [height_append, h.closed hUnended.1, h'.closed hUnended.2, Int.add_zero]

theorem nests_nil : Nests p ts 0 [] :=
  ⟨[], rfl, .nil, inward_nil, fun _ => rfl⟩

theorem nests_report {d : Diagnostic} (h : d.fault.isStray = false) : Nests p ts 0 [d] :=
  ⟨[], rfl, .report h .nil, inward_nil, fun _ => rfl⟩

theorem nests_token (h : (p.current ts).turn = 0) : Nests p ts 1 [] := by
  have hWalk : Walk p ts [(p.current ts).turn] [] := .taken .nil
  rw [h] at hWalk
  exact ⟨[0], rfl, hWalk, inward_zero, fun _ => rfl⟩

theorem nests_stray {f : Fault} (h : StrayFault (p.current ts) f) :
    Nests p ts 1 [faultAt (p.current ts) f] :=
  ⟨[0], rfl, .stray h .nil, inward_zero, fun _ => rfl⟩

theorem Nests.append (h : Nests p ts m errors) (h' : Nests p (ts.drop m) n errors') :
    Nests p ts (m + n) (errors ++ errors') := by
  obtain ⟨turns, rfl, hNested⟩ := h
  obtain ⟨turns', rfl, hNested'⟩ := h'
  exact ⟨turns ++ turns', List.length_append, hNested.append hNested'⟩

theorem Nests.of_eq (h : Nests p ts m errors) (hEq : m = n) : Nests p ts n errors :=
  hEq ▸ h

theorem NestsWithin.nests (h : NestsWithin p ts n errors) : Nests p ts (n + 1) errors := by
  obtain ⟨turns, hLength, hNested, -⟩ := h
  exact ⟨turns, hLength, hNested⟩

/-! ## Single tokens -/

theorem turn_of_is {s : Symbol} (h : t.is s = true) (hs : s ≠ .openCurly) (hs' : s ≠ .closeCurly) :
    t.turn = 0 := by
  rw [Token.turn_of_is h, if_neg hs, if_neg hs']

theorem nests_symbol {s : Symbol} (h : (p.current ts).is s = true) (hs : s ≠ .openCurly)
    (hs' : s ≠ .closeCurly) : Nests p ts 1 [] :=
  nests_token (turn_of_is h hs hs')

/-- A symbol that is no brace, and what is passed behind it. -/
theorem Nests.behind {s : Symbol} (h : Nests p rest n errors) (hIs : t.is s = true)
    (hs : s ≠ .openCurly) (hs' : s ≠ .closeCurly) : Nests p (t :: rest) (1 + n) errors := by
  have hSymbol : Nests p (t :: rest) 1 [] := nests_symbol hIs hs hs'
  exact hSymbol.append h

/-- A token of a class without symbols. -/
theorem nests_tokenClass {k : TokenClass} (h : (p.current ts).tokenClass = k)
    (hNone : ∀ s : Symbol, s.tokenClass ≠ k) : Nests p ts 1 [] :=
  nests_token (Token.turn_of_not_is (Token.not_is_of_tokenClass h hNone))

theorem nests_literal {k : TokenClass} {s : Step (Option Expr)} (h : t.tokenClass = k)
    (hNone : ∀ s : Symbol, s.tokenClass ≠ k)
    (hErrors : s.errors = [] ∨ ∃ f, f.isStray = false ∧ s.errors = [faultAt t f])
    (hMoved : s.moved = 0) : Nests p (t :: rest) (s.moved + 1) s.errors := by
  have hToken : Nests p (t :: rest) 1 [] := nests_tokenClass h hNone
  rw [hMoved]
  rcases hErrors with hErrors | ⟨f, hStray, hErrors⟩
  · rw [hErrors]
    exact hToken
  · rw [hErrors]
    exact hToken.append (nests_report hStray)

theorem nests_integer (h : t.tokenClass = .number) :
    Nests p (t :: rest) ((integer t).moved + 1) (integer t).errors := by
  refine nests_literal h (fun s => s.tokenClass_ne.1) ?_ (builtOrFault_integer t).moved
  unfold integer
  split
  · exact Or.inl rfl
  · exact Or.inr ⟨_, rfl, rfl⟩

theorem nests_truth (h : t.tokenClass = .boolean) :
    Nests p (t :: rest) ((truth t).moved + 1) (truth t).errors := by
  refine nests_literal h (fun s => s.tokenClass_ne.2.1) ?_ (builtOrFault_truth t).moved
  unfold truth
  split
  · exact Or.inl rfl
  · exact Or.inr ⟨_, rfl, rfl⟩

/-! ## Expressions -/

theorem nests_opened {first s : Step (Option Expr)}
    (hFirst : Nests p ts (first.moved + 1) first.errors)
    (hRest : Nests p ((ts.drop first.moved).drop 1) s.moved s.errors) :
    Nests p ts ((s.after first.moved first.errors).moved + 1)
      (s.after first.moved first.errors).errors := by
  rw [List.drop_drop] at hRest
  exact (hFirst.append hRest).of_eq (Nat.add_right_comm _ _ _)

theorem nests_fold {op : BinaryOp} {right s : Step (Option Expr)} (hIs : t.is op.symbol = true)
    (hRight : Nests p rest (right.moved + 1) right.errors)
    (hRest : Nests p ((rest.drop right.moved).drop 1) s.moved s.errors) :
    Nests p (t :: rest) (s.after (2 + right.moved) right.errors).moved
      (s.after (2 + right.moved) right.errors).errors := by
  refine ((nests_opened hRight hRest).behind hIs (by cases op <;> decide)
    (by cases op <;> decide)).of_eq ?_
  simp only [Step.moved_after]
  omega

theorem nests_unary {op : UnaryOp} {s : Step (Option Expr)} (hIs : t.is op.symbol = true)
    (hOperand : Nests p rest (s.moved + 1) s.errors) :
    Nests p (t :: rest) (1 + s.moved + 1) s.errors :=
  hOperand.behind hIs (by cases op <;> decide) (by cases op <;> decide)

/-- What is closed by a symbol that is no brace, or reported not to be. -/
theorem nests_closing {α : Type} {s : Symbol} {fault : String → Fault} {part : Step (Option α)}
    (hs : s ≠ .openCurly) (hs' : s ≠ .closeCurly) (hFault : ∀ token, (fault token).isStray = false)
    (hPart : Nests p ts (part.moved + 1) part.errors) :
    Nests p ts ((closing p s fault ts part).moved + 1) (closing p s fault ts part).errors := by
  by_cases hNext : (p.next (ts.drop part.moved)).is s = true
  · rw [closing_found hNext, ← List.append_nil part.errors]
    unfold Setting.next at hNext
    rw [List.drop_drop] at hNext
    exact hPart.append (nests_symbol hNext hs hs')
  · rw [closing_missing hNext]
    exact hPart.append (nests_report (hFault _))

/-- The same behind a symbol that is no brace. -/
theorem nests_closing_behind {α : Type} {s s' : Symbol} {fault : String → Fault}
    {part : Step (Option α)} (hIs : t.is s' = true) (hNot : s' ≠ .openCurly)
    (hNot' : s' ≠ .closeCurly) (hs : s ≠ .openCurly) (hs' : s ≠ .closeCurly)
    (hFault : ∀ token, (fault token).isStray = false)
    (hPart : Nests p rest (part.moved + 1) part.errors) :
    Nests p (t :: rest) (1 + (closing p s fault rest part).moved + 1)
      (closing p s fault rest part).errors :=
  (nests_closing hs hs' hFault hPart).behind hIs hNot hNot'

theorem nests_cond {condition s : Step (Option Expr)} (hIs : t.is .ifWord = true)
    (hCondition : Nests p rest (condition.moved + 1) condition.errors)
    (hRest : Nests p ((rest.drop condition.moved).drop 1) s.moved s.errors) :
    Nests p (t :: rest) ((s.after (1 + condition.moved) condition.errors).moved + 1)
      (s.after (1 + condition.moved) condition.errors).errors := by
  refine ((nests_opened hCondition hRest).behind hIs (by decide) (by decide)).of_eq ?_
  simp only [Step.moved_after]
  omega

theorem nests_branches {body : Step (List Stmt)} {s : Step (Option Expr)}
    (hBody : NestsWithin p ts body.moved body.errors)
    (hRest : Nests p ((ts.drop body.moved).drop 1) s.moved s.errors) :
    Nests p ts (s.after (1 + body.moved) body.errors).moved
      (s.after (1 + body.moved) body.errors).errors := by
  rw [List.drop_drop] at hRest
  refine (hBody.nests.append hRest).of_eq ?_
  rw [Step.moved_after, Nat.add_comm 1]

theorem nests_otherwise {word : Token} {other : Step (List Stmt)} (hElse : word.is .elseWord = true)
    (hOther : NestsWithin p rest other.moved other.errors) :
    Nests p (word :: rest) (2 + other.moved) other.errors :=
  (hOther.nests.behind hElse (by decide) (by decide)).of_eq (by omega)

/-! ## Statements -/

/-- The token that statements end before: it closes their block, or the input ends there. -/
theorem turn_of_ends (hp : p.IsStandard) (h : Ends true ts) :
    (p.current ts).turn = -1 ∨ (p.current ts).turn = 0 ∧ (p.current ts).isEnd = true := by
  cases ts with
  | nil => exact Or.inr ⟨Token.turn_of_not_is (Token.not_is_of_isEnd hp.endMark), hp.endMark⟩
  | cons last behind =>
    rw [Setting.current_cons]
    rcases h last rfl with hEnd | ⟨-, hClose⟩
    · exact Or.inr ⟨Token.turn_of_not_is (Token.not_is_of_isEnd hEnd), hEnd⟩
    · refine Or.inl ?_
      rw [Token.turn_of_is hClose, if_neg (by decide), if_pos rfl]

/-- An opening brace, and a walk behind it with one more token. -/
theorem Walk.wrap (h : Walk p rest turns errors) (hIs : t.is .openCurly = true) :
    Walk p (t :: rest) (1 :: (turns ++ [(p.current (rest.drop turns.length)).turn])) errors := by
  have hOpen : (p.current (t :: rest)).turn = 1 := by
    rw [Setting.current_cons, Token.turn_of_is hIs, if_pos rfl]
  have hWalk : Walk p rest (turns ++ [(p.current (rest.drop turns.length)).turn])
      (errors ++ []) := h.append (.taken .nil)
  rw [List.append_nil] at hWalk
  rw [← hOpen]
  exact .taken hWalk

theorem nests_block (hp : p.IsStandard) {s : Step (List Stmt)} (hIs : t.is .openCurly = true)
    (hBody : Nests p rest s.moved s.errors) (hEnds : Ends true (rest.drop s.moved)) :
    NestsWithin p (t :: rest) (1 + s.moved) s.errors := by
  obtain ⟨turns, hLength, hNested⟩ := hBody
  rw [← hLength] at hEnds ⊢
  have hWalk := hNested.walk.wrap hIs
  have hTurn := turn_of_ends hp hEnds
  generalize (p.current (rest.drop turns.length)).turn = last at hWalk hTurn
  have hWrap := length_wrap turns last
  refine ⟨_, by omega, ⟨hWalk, hNested.inward.wrap (by omega), ?_⟩, ?_⟩
  · intro hUnended
    rw [hWrap] at hUnended
    have hRest : Unended p rest (turns.length + 1) := fun i hi => hUnended (i + 1) (by omega)
    rcases hTurn with hLast | ⟨-, hEnd⟩
    · rw [height_wrap, hNested.closed (hRest.of_le (Nat.le_succ _)), hLast]
      rfl
    · exact absurd hEnd (hRest turns.length (Nat.lt_succ_self _))
  · intro k hPos hk
    exact hNested.inward.inside_wrap last hPos (by omega)

theorem nests_expressionStmt {s : Step (Option Expr)}
    (hExpr : Nests p ts (s.moved + 1) s.errors) :
    Nests p ts
      (s.moved + (if (p.next (ts.drop s.moved)).is .semicolon then 1 else 0) + 1) s.errors := by
  split
  · rename_i hNext
    unfold Setting.next at hNext
    rw [List.drop_drop] at hNext
    have hMark := hExpr.append (nests_symbol hNext (by decide) (by decide))
    rwa [List.append_nil] at hMark
  · exact hExpr

/-- A declaration up to the sign behind its name. -/
theorem nests_declared {word sign : Token} {s : Symbol} (hIs : t.is .varWord = true)
    (hName : word.tokenClass = .identifier) (hSign : sign.is s = true) (hs : s ≠ .openCurly)
    (hs' : s ≠ .closeCurly) : Nests p (t :: word :: sign :: rest) 3 [] := by
  have hWord : Nests p (word :: sign :: rest) 1 [] :=
    nests_tokenClass hName fun s => s.tokenClass_ne.2.2.1
  have hSymbol : Nests p (sign :: rest) 1 [] := nests_symbol hSign hs hs'
  exact (hWord.append hSymbol).behind hIs (by decide) (by decide)

theorem nests_varDecl {word sign : Token} {s : Step (Option Expr)} (hIs : t.is .varWord = true)
    (hName : word.tokenClass = .identifier) (hSign : sign.is .assignment = true)
    (hExpr : Nests p rest (s.moved + 1) s.errors) :
    Nests p (t :: word :: sign :: rest)
      (3 + (closing p .semicolon (.missingSemicolon "var") rest s).moved + 1)
      (closing p .semicolon (.missingSemicolon "var") rest s).errors := by
  have hDeclared : Nests p (t :: word :: sign :: rest) 3 [] :=
    nests_declared hIs hName hSign (by decide) (by decide)
  exact hDeclared.append (nests_closing (by decide) (by decide) (fun _ => rfl) hExpr)

theorem nests_varDeclUnassigned (hIs : t.is .varWord = true)
    (hName : (p.current rest).tokenClass = .identifier) {d : Diagnostic}
    (hStray : d.fault.isStray = false) : Nests p (t :: rest) 2 [d] := by
  have hWord : Nests p rest 1 [] := nests_tokenClass hName fun s => s.tokenClass_ne.2.2.1
  exact (hWord.append (nests_report hStray)).behind hIs (by decide) (by decide)

/-- Each way to a result walks inwards, and comes back if the input does not end on the way. -/
theorem nesting_respected (hp : p.IsStandard) : (nesting p).Respected p where
  noOperand hNone := nests_stray (.noOperand hNone)
  opened _ hFirst hRest := nests_opened hFirst hRest
  stop _ := nests_nil
  fold hIs _ hRight hRest := nests_fold hIs hRight hRest
  integer h := nests_integer h
  truth h := nests_truth h
  name h := nests_literal h (fun s => s.tokenClass_ne.2.2.1) (Or.inl rfl) rfl
  unary hIs hOperand := nests_unary hIs hOperand
  group hIs hInner := nests_closing_behind hIs (by decide) (by decide) (by decide) (by decide)
    (fun _ => rfl) hInner
  cond hIs _ hCondition hRest := nests_cond hIs hCondition hRest
  condUnopened hIs _ := (nests_report rfl).behind hIs (by decide) (by decide)
  branches _ _ hBody hRest := nests_branches hBody hRest
  branchesUnclosed _ := nests_report rfl
  branchesUnopened _ hOpening := nests_stray (.noBlock hOpening)
  otherwiseNone _ := nests_nil
  otherwise hElse _ hOther := nests_otherwise hElse hOther
  otherwiseUnopened hElse _ :=
    (nests_symbol hElse (by decide) (by decide)).append (nests_report rfl)
  block hIs hBody := nests_block hp hIs hBody.1 hBody.2
  ends hEnds := ⟨nests_nil, hEnds⟩
  next _ hOne hOthers := ⟨hOne.append hOthers.1, hOthers.2.behind⟩
  expressionStmt _ _ hExpr := nests_expressionStmt hExpr
  ret hIs hExpr := nests_closing_behind hIs (by decide) (by decide) (by decide) (by decide)
    (fun _ => rfl) hExpr
  varDecl hIs hName hSign hExpr := nests_varDecl hIs hName hSign hExpr
  varDeclNone hIs hName hSign := nests_declared hIs hName hSign (by decide) (by decide)
  varDeclUnnamed hIs _ := (nests_report rfl).behind hIs (by decide) (by decide)
  varDeclUnassigned hIs hName _ _ := nests_varDeclUnassigned hIs hName rfl

/-! ## Blocks -/

/-- The token at the index stands in front of every mark of the end. -/
structure InFront (ts : List Token) (index : Nat) : Prop where
  lt : index < ts.length
  not_isEnd : ∀ t ∈ ts.take (index + 1), ¬ t.isEnd = true

theorem InFront.unended (h : InFront ts m) : Unended p ts (m + 1) := by
  intro i hi
  have hLength : i < ts.length := Nat.lt_of_lt_of_le hi h.lt
  have hMem : ts[i] ∈ ts.take (m + 1) := by
    rw [List.mem_take_iff_getElem]
    exact ⟨i, by omega, rfl⟩
  rw [List.drop_eq_getElem_cons hLength, Setting.current_cons]
  exact h.not_isEnd _ hMem

/-- A stray token of which no brace is reported does not turn. -/
theorem StrayFault.turn_eq_zero {f : Fault} (h : StrayFault t f) (hBrace : f.isStrayBrace = false) :
    t.turn = 0 := by
  have hOpen : ∀ s : Symbol, t.is s = true → t.describe = s.spelling := by
    intro s hIs
    rw [Token.describe, if_neg (Token.not_isEnd_of_is hIs)]
    exact (Token.symbol?_eq_some_iff.1 (Token.is_iff.1 hIs)).1
  rw [Token.turn]
  split
  · rename_i hIs
    cases h with
    | noOperand _ =>
      rw [hOpen _ hIs] at hBrace
      cases hBrace
    | noBlock hNot => exact absurd hIs hNot
  · split
    · rename_i hIs
      cases h <;> rw [hOpen _ hIs] at hBrace <;> cases hBrace
    · rfl

/-- Turns that are those of the tokens, but for some that are counted behind the list. -/
def FollowsList (ts : List Token) (turns : List Int) : Prop :=
  ∃ n, turns ++ (ts.drop turns.length).map Token.turn =
    ts.map Token.turn ++ List.replicate n 0

theorem FollowsList.cons (hp : p.IsStandard) {turn : Int} (hTurn : turn = (p.current ts).turn)
    (h : FollowsList (ts.drop 1) turns) : FollowsList ts (turn :: turns) := by
  obtain ⟨n, hMap⟩ := h
  rw [List.drop_drop, Nat.add_comm] at hMap
  cases ts with
  | nil =>
    have hEnd : p.endMark.turn = 0 := Token.turn_of_not_is (Token.not_is_of_isEnd hp.endMark)
    refine ⟨n + 1, ?_⟩
    rw [List.cons_append, List.length_cons, hMap, hTurn, Setting.current_nil, hEnd]
    rfl
  | cons t rest =>
    refine ⟨n, ?_⟩
    rw [List.cons_append, List.length_cons, hMap, hTurn]
    rfl

/-- As long as no brace is stray, every token turns as it does by itself. -/
theorem Walk.followsList (h : Walk p ts turns errors) (hp : p.IsStandard)
    (hBrace : ∀ d ∈ errors, d.fault.isStrayBrace = false) : FollowsList ts turns := by
  induction h with
  | nil => exact ⟨0, by simp⟩
  | taken _ ih => exact (ih hBrace).cons hp rfl
  | stray hStray _ ih =>
    have hTurn := hStray.turn_eq_zero (hBrace _ List.mem_cons_self)
    exact (ih fun d hd => hBrace d (List.mem_cons_of_mem _ hd)).cons hp hTurn.symm
  | report _ _ ih => exact ih fun d hd => hBrace d (List.mem_cons_of_mem _ hd)

theorem nestsWithin_block (hp : p.IsStandard) (hOpen : (p.current ts).is .openCurly = true) :
    NestsWithin p ts (block p ts).moved (block p ts).errors := by
  obtain ⟨t, rest, rfl, hIs⟩ := hp.exists_cons hOpen
  exact (Contract.holdsAt (nesting_respected hp) hp _).block rfl hIs

/-- A walk within a block that the input does not end closes the block with its last token. -/
theorem closes_within (hLength : turns.length = n + 1) (h : Nested p ts turns errors)
    (hWithin : ∀ k, 0 < k → k ≤ n → 0 < height (turns.take k)) (hUnended : Unended p ts (n + 1)) :
    Closes turns n := by
  refine ⟨hWithin, ?_⟩
  rw [← hLength, List.take_length]
  rw [← hLength] at hUnended
  exact h.closed hUnended

/-- A block ends at a token in front of the end of the input exactly if this token closes it when the
stray tokens are not counted. So it ends at its own closing brace unless a stray brace is reported on
the way. -/
theorem moved_block (hp : p.IsStandard) (hOpen : (p.current ts).is .openCurly = true) :
    ∃ turns, turns.length = (block p ts).moved + 1 ∧ Walk p ts turns (block p ts).errors ∧
      ∀ m, InFront ts m →
        ((block p ts).moved = m ↔
          Closes (turns ++ (ts.drop turns.length).map Token.turn) m) ∧
        (Closes (ts.map Token.turn) m →
          (∀ d ∈ (block p ts).errors, d.fault.isStrayBrace = false) → (block p ts).moved = m) := by
  obtain ⟨turns, hLength, hNested, hWithin⟩ := nestsWithin_block hp hOpen
  have hInside : (block p ts).moved < turns.length := hLength ▸ Nat.lt_succ_self _
  have hIff : ∀ m, InFront ts m → ((block p ts).moved = m ↔
      Closes (turns ++ (ts.drop turns.length).map Token.turn) m) := by
    intro m hFront
    have hClosed : (block p ts).moved ≤ m →
        Closes (turns ++ (ts.drop turns.length).map Token.turn) (block p ts).moved := by
      intro hLe
      rw [closes_append hInside]
      exact closes_within hLength hNested hWithin (hFront.unended.of_le (Nat.succ_le_succ hLe))
    constructor
    · rintro rfl
      exact hClosed (Nat.le_refl _)
    · intro hCloses
      rcases Nat.lt_or_ge m (block p ts).moved with hLt | hLe
      · -- Behind this token the parse is still within the block.
        rw [closes_append (Nat.lt_trans hLt hInside)] at hCloses
        have hPos := hWithin (m + 1) (Nat.succ_pos m) hLt
        rw [hCloses.back] at hPos
        exact absurd hPos (Int.lt_irrefl 0)
      · exact (hClosed hLe).unique hCloses
  refine ⟨turns, hLength, hNested.walk, fun m hFront => ⟨hIff m hFront, ?_⟩⟩
  intro hCloses hBrace
  obtain ⟨n, hMap⟩ := hNested.walk.followsList hp hBrace
  rw [hIff m hFront, hMap, closes_append]
  · exact hCloses
  · rw [List.length_map]
    exact hFront.lt

/-- A statement that fails at a semicolon, in a block that ends at its brace all the same. -/
theorem moved_block_semicolon :
    (Setting.ofTokens (Reading.default.tokens "\x7b a + ; \x7d b")).IsStandard ∧
      ((Setting.ofTokens (Reading.default.tokens "\x7b a + ; \x7d b")).current
        (Reading.default.tokens "\x7b a + ; \x7d b")).is .openCurly = true ∧
      (block (Setting.ofTokens (Reading.default.tokens "\x7b a + ; \x7d b"))
        (Reading.default.tokens "\x7b a + ; \x7d b")).moved = 4 := by
  have hStandard := isStandard_ofTokens (Reading.default.tokens "\x7b a + ; \x7d b")
  have hOpen : ((Setting.ofTokens (Reading.default.tokens "\x7b a + ; \x7d b")).current
      (Reading.default.tokens "\x7b a + ; \x7d b")).is .openCurly = true := by decide +kernel
  obtain ⟨turns, -, -, hEnds⟩ := moved_block hStandard hOpen
  refine ⟨hStandard, hOpen, (hEnds 4 ⟨by decide +kernel, by decide +kernel⟩).2 ?_ ?_⟩
  · decide +kernel
  · decide +kernel

/-- The brace where an operand is missing is passed, and the block takes in what stands behind it. -/
theorem not_moved_block_brace :
    InFront (Reading.default.tokens "\x7b a + \x7d b") 3 ∧
      Closes ((Reading.default.tokens "\x7b a + \x7d b").map Token.turn) 3 ∧
      (block (Setting.ofTokens (Reading.default.tokens "\x7b a + \x7d b"))
        (Reading.default.tokens "\x7b a + \x7d b")).moved ≠ 3 ∧
      (block (Setting.ofTokens (Reading.default.tokens "\x7b a + \x7d b"))
        (Reading.default.tokens "\x7b a + \x7d b")).value = [.expr (.name "b")] := by
  refine ⟨⟨by decide +kernel, by decide +kernel⟩, by decide +kernel, by decide +kernel, ?_⟩
  decide +kernel

end Parse
end Frontend
