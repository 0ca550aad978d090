import Frontend.Proofs.Parse.Contract
import Frontend.Proofs.Parse.Nesting

/-!
# Blocks that are closed

A parse that reports nothing reads every brace as the beginning or the end of a block. Only the end
of the input may stand for a closing brace. So what such a parse has moved past holds at least as
many opening braces as closing ones, and it holds more exactly if a block is left open at the end.

* `depth`: by how many blocks a token list leads inwards.
* `ClosesAt`: where an operand ends, and that no block is left open there unless the input ends.
* `balance_respected`: each way to a result keeps the balance. So a statement without reports is
  either closed or ends with the input.
-/

namespace Frontend

/-- By how many blocks the token leads inwards. -/
def Token.turn (t : Token) : Int :=
  if t.is .openCurly then 1 else if t.is .closeCurly then -1 else 0

/-- By how many blocks the tokens lead inwards: the opening braces without the closing ones. -/
def depth : List Token → Int
  | [] => 0
  | t :: rest => t.turn + depth rest

theorem depth_append (a b : List Token) : depth (a ++ b) = depth a + depth b := by
  induction a with
  | nil => simp [depth]
  | cons t rest ih => simp only [List.cons_append, depth, ih, Int.add_assoc]

theorem Token.turn_of_is {t : Token} {s : Symbol} (h : t.is s = true) :
    t.turn = if s = .openCurly then 1 else if s = .closeCurly then -1 else 0 :=
  Token.turnBy_of_is h

theorem Token.turn_of_not_is {t : Token} (h : ∀ s : Symbol, ¬ t.is s = true) : t.turn = 0 :=
  Token.turnBy_of_not_is h .openCurly .closeCurly

namespace Parse

/-- Behind a mark of the end nothing else is seen. -/
def Final (p : Setting) (ts : List Token) : Prop :=
  ∀ i, (p.current (ts.drop i)).isEnd = true → (p.current (ts.drop (i + 1))).isEnd = true

/-- An operand that ends on the token at the index and leads inwards by `d` blocks. It does so only
if the input ends there. -/
structure ClosesAt (p : Setting) (ts : List Token) (index : Nat) (d : Int) : Prop where
  nonneg : 0 ≤ d
  open_iff : 0 < d ↔ (p.current (ts.drop index)).isEnd = true
  not_semicolon : ¬ (p.current (ts.drop index)).is .semicolon = true

/-- What each parsing function keeps of the balance of braces, as long as nothing is reported. -/
def balance (p : Setting) : Contract where
  expression ts _ s := Final p ts → s.errors = [] →
    ClosesAt p ts s.moved (depth (ts.take (s.moved + 1)))
  operators ts _ _ s := Final p ts → s.errors = [] → ∀ d, ClosesAt p ts 0 d →
    ClosesAt p ts s.moved (d + depth ((ts.drop 1).take s.moved))
  operand ts s := Final p ts → s.errors = [] →
    ClosesAt p ts s.moved (depth (ts.take (s.moved + 1)))
  branches ts _ s := Final p ts → s.errors = [] → ∀ d, ClosesAt p ts 0 d →
    ClosesAt p ts s.moved (d + depth ((ts.drop 1).take s.moved))
  otherwise ts _ _ s := Final p ts → s.errors = [] → ∀ d, ClosesAt p ts 0 d →
    ClosesAt p ts s.moved (d + depth ((ts.drop 1).take s.moved))
  block ts s := Final p ts → s.errors = [] →
    ClosesAt p ts s.moved (depth (ts.take (s.moved + 1)))
  statements ts inBlock s := Final p ts → s.errors = [] →
    0 ≤ depth (ts.take s.moved) ∧
      (0 < depth (ts.take s.moved) → (p.current (ts.drop s.moved)).isEnd = true) ∧
      Ends inBlock (ts.drop s.moved)
  statement ts s := Final p ts → s.errors = [] →
    0 ≤ depth (ts.take (s.moved + 1)) ∧
      (0 < depth (ts.take (s.moved + 1)) ↔ (p.current (ts.drop s.moved)).isEnd = true)

variable {p : Setting} {t : Token} {ts rest : List Token} {d : Int} {i j : Nat}

/-! ## Places at the end -/

theorem Final.drop (h : Final p ts) (k : Nat) : Final p (ts.drop k) := by
  intro i
  rw [List.drop_drop, List.drop_drop, ← Nat.add_assoc]
  exact h (k + i)

theorem Final.tail (h : Final p (t :: rest)) : Final p rest :=
  h.drop 1

theorem Final.of_le (h : Final p ts) (hij : i ≤ j)
    (hEnd : (p.current (ts.drop i)).isEnd = true) : (p.current (ts.drop j)).isEnd = true := by
  induction hij with
  | refl => exact hEnd
  | step _ ih => exact h _ ih

/-- In front of a symbol the input does not end. -/
theorem Final.not_isEnd (h : Final p ts) {s : Symbol} (hNext : (p.next (ts.drop i)).is s = true) :
    ¬ (p.current (ts.drop i)).isEnd = true := by
  intro hEnd
  have hEndNext := h i hEnd
  rw [← List.drop_drop] at hEndNext
  exact Token.not_is_of_isEnd hEndNext s hNext

/-- An operand in front of a symbol is closed. -/
theorem ClosesAt.eq_zero (hFinal : Final p ts) (h : ClosesAt p ts i d) {s : Symbol}
    (hNext : (p.next (ts.drop i)).is s = true) : d = 0 := by
  have hNot := hFinal.not_isEnd hNext
  rw [← h.open_iff] at hNot
  have hNonneg := h.nonneg
  omega

theorem closesAt_drop {k : Nat} : ClosesAt p (ts.drop k) i d ↔ ClosesAt p ts (k + i) d := by
  constructor
  · rintro ⟨hNonneg, hOpen, hSemicolon⟩
    rw [List.drop_drop] at hOpen hSemicolon
    exact ⟨hNonneg, hOpen, hSemicolon⟩
  · rintro ⟨hNonneg, hOpen, hSemicolon⟩
    rw [← List.drop_drop] at hOpen hSemicolon
    exact ⟨hNonneg, hOpen, hSemicolon⟩

theorem closesAt_cons : ClosesAt p (t :: rest) (i + 1) d ↔ ClosesAt p rest i d := by
  rw [Nat.add_comm, ← closesAt_drop, List.drop_succ_cons, List.drop_zero]

/-- An operand that ends on a token which is neither a semicolon nor the end is closed. -/
theorem closesAt_zero (hEnd : ¬ (p.current (ts.drop i)).isEnd = true)
    (hSemicolon : ¬ (p.current (ts.drop i)).is .semicolon = true) : ClosesAt p ts i 0 :=
  ⟨Int.le_refl 0, ⟨fun h => absurd h (Int.lt_irrefl 0), fun h => absurd h hEnd⟩, hSemicolon⟩

theorem depth_take_add (ts : List Token) (a b : Nat) :
    depth (ts.take (a + b)) = depth (ts.take a) + depth ((ts.drop a).take b) := by
  rw [List.take_add, depth_append]

theorem depth_take_after (ts : List Token) (a b : Nat) :
    depth (ts.take (a + b + 1)) =
      depth (ts.take (a + 1)) + depth (((ts.drop a).drop 1).take b) := by
  rw [List.drop_drop, ← depth_take_add, Nat.add_right_comm]

/-- A further symbol that is no brace leads nowhere. -/
theorem depth_take_next (hp : p.IsStandard) {s : Symbol} {k : Nat}
    (h : (p.next (ts.drop k)).is s = true) (hs : s ≠ .openCurly) (hs' : s ≠ .closeCurly) :
    depth (ts.take (k + 1 + 1)) = depth (ts.take (k + 1)) := by
  obtain ⟨head, next, behind, hDrop, hIs⟩ := hp.exists_cons_next h
  have hBehind : ts.drop (k + 1) = next :: behind := by
    rw [← List.drop_drop, hDrop, List.drop_succ_cons, List.drop_zero]
  rw [depth_take_add, hBehind, List.take_succ_cons, List.take_zero, depth, depth,
    Token.turn_of_is hIs, if_neg hs, if_neg hs']
  omega

theorem depth_cons_of_is {s : Symbol} (h : t.is s = true) (hs : s ≠ .openCurly)
    (hs' : s ≠ .closeCurly) (rest : List Token) : depth (t :: rest) = depth rest := by
  rw [depth, Token.turn_of_is h, if_neg hs, if_neg hs', Int.zero_add]

theorem depth_cons_of_tokenClass {k : TokenClass} (h : t.tokenClass = k)
    (hNone : ∀ s : Symbol, s.tokenClass ≠ k) (rest : List Token) :
    depth (t :: rest) = depth rest := by
  rw [depth, Token.turn_of_not_is (Token.not_is_of_tokenClass h hNone), Int.zero_add]

theorem depth_cons_of_isEnd (h : t.isEnd = true) (rest : List Token) :
    depth (t :: rest) = depth rest := by
  rw [depth, Token.turn_of_not_is (Token.not_is_of_isEnd h), Int.zero_add]

/-! ## Expressions -/

/-- An operand that is a single token of a class without symbols. -/
theorem closesAt_token {k : TokenClass} (h : t.tokenClass = k)
    (hNone : ∀ s : Symbol, s.tokenClass ≠ k) (hEnd : k ≠ .endOfInput) :
    ClosesAt p (t :: rest) 0 (depth ((t :: rest).take 1)) := by
  rw [List.take_succ_cons, List.take_zero, depth_cons_of_tokenClass h hNone, depth]
  apply closesAt_zero
  · show ¬ t.isEnd = true
    rw [Token.isEnd, h]
    simpa using hEnd
  · exact Token.not_is_of_tokenClass h hNone .semicolon

theorem balance_literal {s : Step (Option Expr)} {k : TokenClass} (h : t.tokenClass = k)
    (hNone : ∀ s : Symbol, s.tokenClass ≠ k) (hEnd : k ≠ .endOfInput) (hBuilt : BuiltOrFault t s) :
    (balance p).operand (t :: rest) s := by
  rcases hBuilt with ⟨e, rfl⟩ | ⟨f, rfl⟩
  · intro _ _
    exact closesAt_token h hNone hEnd
  · intro _ hClean
    cases hClean

theorem balance_name (h : t.tokenClass = .identifier) :
    (balance p).operand (t :: rest) (name t) :=
  fun _ _ => closesAt_token h (fun s => s.tokenClass_ne.2.2.1) (by decide)

theorem balance_opened {floor : BindingPower} {first s : Step (Option Expr)}
    (hFirst : (balance p).operand ts first)
    (hRest : (balance p).operators (ts.drop first.moved) floor first.value s) :
    (balance p).expression ts floor (s.after first.moved first.errors) := by
  intro hFinal hClean
  obtain ⟨hCleanFirst, hCleanRest⟩ := List.append_eq_nil_iff.1 hClean
  have hOperand := hFirst hFinal hCleanFirst
  have hBehind := hRest (hFinal.drop _) hCleanRest _ (closesAt_drop.2 hOperand)
  rw [Step.moved_after, depth_take_after]
  exact closesAt_drop.1 hBehind

theorem closesAt_stay (h : ClosesAt p ts 0 d) :
    ClosesAt p ts 0 (d + depth ((ts.drop 1).take 0)) := by
  rw [List.take_zero, depth, Int.add_zero]
  exact h

theorem balance_fold {head : Token} {op : BinaryOp} {floor : BindingPower}
    {left : Option Expr} {right s : Step (Option Expr)} (hIs : t.is op.symbol = true)
    (hRight : (balance p).expression rest op.power right)
    (hRest : (balance p).operators (rest.drop right.moved) floor (combine op left right.value) s) :
    (balance p).operators (head :: t :: rest) floor left
      (s.after (2 + right.moved) right.errors) := by
  intro hFinal hClean d hLeft
  obtain ⟨hCleanRight, hCleanRest⟩ := List.append_eq_nil_iff.1 hClean
  have hZero : d = 0 := hLeft.eq_zero hFinal (s := op.symbol) hIs
  have hFinalRest : Final p rest := hFinal.tail.tail
  have hOperand := hRight hFinalRest hCleanRight
  have hBehind := hRest (hFinalRest.drop _) hCleanRest _ (closesAt_drop.2 hOperand)
  have hMoved : 2 + right.moved + s.moved = right.moved + s.moved + 1 + 1 := by omega
  have hSymbol : depth (t :: rest.take (right.moved + s.moved + 1)) =
      depth (rest.take (right.moved + s.moved + 1)) :=
    depth_cons_of_is hIs (by cases op <;> decide) (by cases op <;> decide) _
  rw [Step.moved_after, hMoved, List.drop_succ_cons, List.drop_zero, List.take_succ_cons, hSymbol,
    depth_take_after, hZero, Int.zero_add]
  exact closesAt_cons.2 (closesAt_cons.2 (closesAt_drop.1 hBehind))

/-- A token that is no brace, and an operand behind it. -/
theorem closesAt_after_one {s : Symbol} (hIs : t.is s = true) (hs : s ≠ .openCurly)
    (hs' : s ≠ .closeCurly) (h : ClosesAt p rest i (depth (rest.take (i + 1)))) :
    ClosesAt p (t :: rest) (i + 1) (depth ((t :: rest).take (i + 1 + 1))) := by
  rw [List.take_succ_cons, depth_cons_of_is hIs hs hs']
  exact closesAt_cons.2 h

theorem balance_unary {op : UnaryOp} {s : Step (Option Expr)} (hIs : t.is op.symbol = true)
    (hOperand : (balance p).expression rest .unary s) :
    (balance p).operand (t :: rest) ((s.build (.unary op)).after 1 []) := by
  intro hFinal hClean
  have h := hOperand hFinal.tail hClean
  rw [Step.moved_after, Step.moved_build, Nat.add_comm 1]
  exact closesAt_after_one hIs (by cases op <;> decide) (by cases op <;> decide) h

/-- Behind an operand in front of a symbol, which ends it, nothing is open. -/
theorem closed_found (hp : p.IsStandard) {α : Type} {s : Symbol} {fault : String → Fault}
    {part : Step (Option α)} (hs : s ≠ .openCurly) (hs' : s ≠ .closeCurly)
    (hFinal : Final p ts)
    (hPart : part.errors = [] → ClosesAt p ts part.moved (depth (ts.take (part.moved + 1))))
    (hClean : (closing p s fault ts part).errors = []) :
    (closing p s fault ts part).moved = part.moved + 1 ∧
      (p.current (ts.drop (part.moved + 1))).is s = true ∧
      depth (ts.take (part.moved + 1 + 1)) = 0 := by
  have hNext := next_of_closing hClean
  rw [closing_found hNext] at hClean ⊢
  refine ⟨rfl, ?_, ?_⟩
  · rw [← List.drop_drop]
    exact hNext
  · rw [depth_take_next hp hNext hs hs', (hPart hClean).eq_zero hFinal hNext]

theorem balance_group (hp : p.IsStandard) {s : Step (Option Expr)} (hIs : t.is .openParen = true)
    (hInner : (balance p).expression rest .lowest s) :
    (balance p).operand (t :: rest)
      ((closing p .closeParen (.missingClosingParen "grouped expression") rest s).after 1 []) := by
  intro hFinal hClean
  obtain ⟨hMoved, hClose, hDepth⟩ := closed_found hp (by decide) (by decide) hFinal.tail
    (hInner hFinal.tail) hClean
  rw [Step.moved_after, Nat.add_comm 1, hMoved]
  apply closesAt_after_one hIs (by decide) (by decide)
  rw [hDepth]
  apply closesAt_zero (Token.not_isEnd_of_is hClose)
  intro hSemicolon
  cases Token.is_unique hClose hSemicolon

theorem balance_cond {condition s : Step (Option Expr)} (hIs : t.is .ifWord = true)
    (hCondition : (balance p).expression rest .lowest condition)
    (hRest : (balance p).branches (rest.drop condition.moved) condition.value s) :
    (balance p).operand (t :: rest) (s.after (1 + condition.moved) condition.errors) := by
  intro hFinal hClean
  obtain ⟨hCleanCondition, hCleanRest⟩ := List.append_eq_nil_iff.1 hClean
  have hOperand := hCondition hFinal.tail hCleanCondition
  have hBehind := hRest (hFinal.tail.drop _) hCleanRest _ (closesAt_drop.2 hOperand)
  have hMoved : 1 + condition.moved + s.moved = condition.moved + s.moved + 1 := by omega
  rw [Step.moved_after, hMoved]
  apply closesAt_after_one hIs (by decide) (by decide)
  rw [depth_take_after]
  exact closesAt_drop.1 hBehind

theorem balance_branches {close opening : Token} {condition : Option Expr}
    {body : Step (List Stmt)} {s : Step (Option Expr)} (hOpening : opening.is .openCurly = true)
    (hBody : (balance p).block (opening :: rest) body)
    (hRest : (balance p).otherwise ((opening :: rest).drop body.moved) condition body.value s) :
    (balance p).branches (close :: opening :: rest) condition
      (s.after (1 + body.moved) body.errors) := by
  intro hFinal hClean d hClose
  obtain ⟨hCleanBody, hCleanRest⟩ := List.append_eq_nil_iff.1 hClean
  have hZero : d = 0 := hClose.eq_zero hFinal (s := .openCurly) hOpening
  have hBlock := hBody hFinal.tail hCleanBody
  have hBehind := hRest (hFinal.tail.drop _) hCleanRest _ (closesAt_drop.2 hBlock)
  have hMoved : 1 + body.moved + s.moved = body.moved + s.moved + 1 := by omega
  rw [Step.moved_after, hMoved, List.drop_succ_cons, List.drop_zero, depth_take_after, hZero,
    Int.zero_add]
  exact closesAt_cons.2 (closesAt_drop.1 hBehind)

theorem balance_otherwise {last word opening : Token} {condition : Option Expr}
    {body : List Stmt} {other : Step (List Stmt)} (hElse : word.is .elseWord = true)
    (hOther : (balance p).block (opening :: rest) other) :
    (balance p).otherwise (last :: word :: opening :: rest) condition body
      ⟨condition.map fun c => .cond c body (some other.value), 2 + other.moved, other.errors⟩ := by
  intro hFinal hClean d hLast
  have hZero : d = 0 := hLast.eq_zero hFinal (s := .elseWord) hElse
  have hBlock := hOther hFinal.tail.tail hClean
  rw [Nat.add_comm 2, List.drop_succ_cons, List.drop_zero, List.take_succ_cons,
    depth_cons_of_is hElse (by decide) (by decide), hZero, Int.zero_add]
  exact closesAt_cons.2 (closesAt_cons.2 hBlock)

/-! ## Statements -/

/-- A block either ends at its brace, so that it is closed, or it is left open at the end. -/
theorem balance_block (hp : p.IsStandard) {s : Step (List Stmt)} (hIs : t.is .openCurly = true)
    (hBody : (balance p).statements rest true s) :
    (balance p).block (t :: rest) (s.after 1 []) := by
  intro hFinal hClean
  obtain ⟨hNonneg, hOpen, hEnds⟩ := hBody hFinal.tail hClean
  rw [Step.moved_after, Nat.add_comm 1, closesAt_cons, List.take_succ_cons, depth,
    Token.turn_of_is hIs, if_pos rfl, depth_take_add]
  cases hDrop : rest.drop s.moved with
  | nil =>
    rw [List.take_nil, depth]
    have hEnd : (p.current (rest.drop s.moved)).isEnd = true := by
      rw [hDrop]
      exact hp.endMark
    exact ⟨by omega, ⟨fun _ => hEnd, fun _ => by omega⟩, Token.not_is_of_isEnd hEnd _⟩
  | cons last behind =>
    have hCurrent : p.current (rest.drop s.moved) = last := by rw [hDrop, Setting.current_cons]
    rw [hDrop] at hEnds
    rw [List.take_succ_cons, List.take_zero]
    rcases hEnds last rfl with hEnd | ⟨-, hClose⟩
    · rw [depth_cons_of_isEnd hEnd, depth]
      rw [← hCurrent] at hEnd
      exact ⟨by omega, ⟨fun _ => hEnd, fun _ => by omega⟩, Token.not_is_of_isEnd hEnd _⟩
    · have hNot : ¬ (p.current (rest.drop s.moved)).isEnd = true := by
        rw [hCurrent]
        exact fun hEnd => Token.not_is_of_isEnd hEnd _ hClose
      have hNotPos := mt hOpen hNot
      have hZero : depth (rest.take s.moved) = 0 := by omega
      rw [depth, depth, Token.turn_of_is hClose, hZero]
      apply closesAt_zero hNot
      rw [hCurrent]
      intro hSemicolon
      cases Token.is_unique hClose hSemicolon

theorem balance_next {inBlock : Bool} {one : Step (Option Stmt)} {others : Step (List Stmt)}
    (hOne : (balance p).statement (t :: rest) one)
    (hOthers : (balance p).statements (rest.drop one.moved) inBlock others) :
    (balance p).statements (t :: rest) inBlock
      ⟨one.value.toList ++ others.value, one.moved + 1 + others.moved,
        one.errors ++ others.errors⟩ := by
  intro hFinal hClean
  obtain ⟨hCleanOne, hCleanOthers⟩ := List.append_eq_nil_iff.1 hClean
  have hBehind : rest.drop one.moved = (t :: rest).drop (one.moved + 1) := rfl
  obtain ⟨hNonneg, hOpen⟩ := hOne hFinal hCleanOne
  rw [hBehind] at hOthers
  obtain ⟨hNonnegOthers, hOpenOthers, hEnds⟩ := hOthers (hFinal.drop _) hCleanOthers
  rw [List.drop_drop] at hOpenOthers hEnds
  refine ⟨?_, ?_, hEnds⟩
  · rw [depth_take_add]
    omega
  · rw [depth_take_add]
    intro hPos
    by_cases hOthersOpen : 0 < depth (((t :: rest).drop (one.moved + 1)).take others.moved)
    · exact hOpenOthers hOthersOpen
    · exact hFinal.of_le (by dsimp only; omega) (hOpen.1 (by omega))

/-- An operand that is ended by a semicolon is closed. -/
theorem balanced_zero {α : Type} {s : Step α} (last : Symbol)
    (hDepth : depth (ts.take (s.moved + 1)) = 0)
    (hLast : (p.current (ts.drop s.moved)).is last = true) :
    0 ≤ depth (ts.take (s.moved + 1)) ∧
      (0 < depth (ts.take (s.moved + 1)) ↔ (p.current (ts.drop s.moved)).isEnd = true) := by
  rw [hDepth]
  exact ⟨Int.le_refl 0, ⟨fun h => absurd h (Int.lt_irrefl 0),
    fun h => absurd h (Token.not_isEnd_of_is hLast)⟩⟩

theorem balance_expressionStmt (hp : p.IsStandard) {s : Step (Option Expr)}
    (hExpr : (balance p).expression ts .lowest s) :
    (balance p).statement ts ⟨s.value.map .expr,
      s.moved + (if (p.next (ts.drop s.moved)).is .semicolon then 1 else 0), s.errors⟩ := by
  intro hFinal hClean
  have h := hExpr hFinal hClean
  split
  · rename_i hNext
    have hLast : (p.current (ts.drop (s.moved + 1))).is .semicolon = true := by
      rw [← List.drop_drop]
      exact hNext
    have hDepth : depth (ts.take (s.moved + 1 + 1)) = 0 := by
      rw [depth_take_next hp hNext (by decide) (by decide), h.eq_zero hFinal hNext]
    exact balanced_zero (s := ⟨s.value, s.moved + 1, []⟩) .semicolon hDepth hLast
  · exact ⟨h.nonneg, h.open_iff⟩

theorem balance_ret (hp : p.IsStandard) {s : Step (Option Expr)} (hIs : t.is .returnWord = true)
    (hExpr : (balance p).expression rest .lowest s) :
    (balance p).statement (t :: rest)
      (((closing p .semicolon (.missingSemicolon "return") rest s).build .ret).after 1 []) := by
  intro hFinal hClean
  obtain ⟨hMoved, hClose, hDepth⟩ := closed_found hp (by decide) (by decide) hFinal.tail
    (hExpr hFinal.tail) hClean
  apply balanced_zero .semicolon
  · rw [Step.moved_after, Step.moved_build, Nat.add_comm 1, hMoved, List.take_succ_cons,
      depth_cons_of_is hIs (by decide) (by decide), hDepth]
  · rw [Step.moved_after, Step.moved_build, Nat.add_comm 1, hMoved]
    exact hClose

theorem balance_varDecl (hp : p.IsStandard) {word sign : Token} {s : Step (Option Expr)}
    (hIs : t.is .varWord = true) (hName : word.tokenClass = .identifier)
    (hSign : sign.is .assignment = true) (hExpr : (balance p).expression rest .lowest s) :
    (balance p).statement (t :: word :: sign :: rest)
      (((closing p .semicolon (.missingSemicolon "var") rest s).build
        fun v => .varDecl word.lexeme (some v)).after 3 []) := by
  intro hFinal hClean
  have hFinalRest : Final p rest := hFinal.tail.tail.tail
  obtain ⟨hMoved, hClose, hDepth⟩ := closed_found hp (by decide) (by decide) hFinalRest
    (hExpr hFinalRest) hClean
  apply balanced_zero .semicolon
  · rw [Step.moved_after, Step.moved_build, Nat.add_comm 3, hMoved, List.take_succ_cons,
      List.take_succ_cons, List.take_succ_cons, depth_cons_of_is hIs (by decide) (by decide),
      depth_cons_of_tokenClass hName fun s => s.tokenClass_ne.2.2.1,
      depth_cons_of_is hSign (by decide) (by decide), hDepth]
  · rw [Step.moved_after, Step.moved_build, Nat.add_comm 3, hMoved]
    exact hClose

theorem balance_varDecl_none {word sign : Token} (hIs : t.is .varWord = true)
    (hName : word.tokenClass = .identifier) (hSign : sign.is .semicolon = true) :
    (balance p).statement (t :: word :: sign :: rest)
      ⟨some (.varDecl word.lexeme none), 2, []⟩ := by
  intro _ _
  apply balanced_zero .semicolon
  · rw [List.take_succ_cons, List.take_succ_cons, List.take_succ_cons, List.take_zero,
      depth_cons_of_is hIs (by decide) (by decide),
      depth_cons_of_tokenClass hName fun s => s.tokenClass_ne.2.2.1,
      depth_cons_of_is hSign (by decide) (by decide), depth]
  · exact hSign

/-- Every way to a result keeps the balance. -/
theorem balance_respected (hp : p.IsStandard) : (balance p).Respected p where
  noOperand _ _ hClean := by cases hClean
  opened _ hFirst hRest := balance_opened hFirst hRest
  stop _ _ _ _ h := closesAt_stay h
  fold hIs _ hRight hRest := balance_fold hIs hRight hRest
  integer h :=
    balance_literal h (fun s => s.tokenClass_ne.1) (by decide) (builtOrFault_integer _)
  truth h :=
    balance_literal h (fun s => s.tokenClass_ne.2.1) (by decide) (builtOrFault_truth _)
  name h := balance_name h
  unary hIs hOperand := balance_unary hIs hOperand
  group hIs hInner := balance_group hp hIs hInner
  cond hIs _ hCondition hRest := balance_cond hIs hCondition hRest
  condUnopened _ _ _ hClean := by cases hClean
  branches _ hOpening hBody hRest := balance_branches hOpening hBody hRest
  branchesUnclosed _ _ hClean := by cases hClean
  branchesUnopened _ _ _ hClean := by cases hClean
  otherwiseNone _ _ _ _ h := closesAt_stay h
  otherwise hElse _ hOther := balance_otherwise hElse hOther
  otherwiseUnopened _ _ _ hClean := by cases hClean
  block hIs hBody := balance_block hp hIs hBody
  ends hEnds _ _ := ⟨Int.le_refl 0, fun h => absurd h (Int.lt_irrefl 0), hEnds⟩
  next _ hOne hOthers := balance_next hOne hOthers
  expressionStmt _ _ hExpr := balance_expressionStmt hp hExpr
  ret hIs hExpr := balance_ret hp hIs hExpr
  varDecl hIs hName hSign hExpr := balance_varDecl hp hIs hName hSign hExpr
  varDeclNone hIs hName hSign := balance_varDecl_none hIs hName hSign
  varDeclUnnamed _ _ _ hClean := by cases hClean
  varDeclUnassigned _ _ _ _ _ hClean := by cases hClean

end Parse
end Frontend
