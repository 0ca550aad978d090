import Frontend.Proofs.Parse.Contract
import Frontend.Proofs.Parse.Nesting

/-!
# The form of a conditional

A parse that reports nothing passes every parenthesis as the beginning or the end of a group. So a
conditional that it accepts begins with an opening parenthesis, this one is closed, and behind the
condition stands a brace. But the condition is an expression that only begins with a group. It goes on
behind this group if an operator stands there, up to a later parenthesis.

* `Accepted`: what a parse without reports has passed.
* `acceptance_respected`: each way to a result without reports passes such tokens.
* `isForm_of_parse`: the form of every conditional in a token list that is parsed without reports.
-/

namespace Frontend

/-- By how many groups the token leads inwards. -/
def Token.parenTurn (t : Token) : Int :=
  t.turnBy .openParen .closeParen

/-- The token at the index stands for the symbol. -/
def StandsAt (ts : List Token) (i : Nat) (s : Symbol) : Prop :=
  ∃ t ∈ ts[i]?, t.is s = true

instance (ts : List Token) (i : Nat) (s : Symbol) : Decidable (StandsAt ts i s) := by
  unfold StandsAt
  infer_instance

/-- Behind the parenthesis at the index `close` the condition goes on with an operator, up to the one
at the index `last`, with a brace behind it. The parentheses between are balanced. -/
structure GoesOn (rest : List Token) (close last : Nat) : Prop where
  operator : ∃ op : BinaryOp, StandsAt rest (close + 1) op.symbol
  lt : close < last
  inward : Inward ((rest.take (last + 1)).map Token.parenTurn)
  balanced : height ((rest.take (last + 1)).map Token.parenTurn) = 0
  closing : StandsAt rest last .closeParen
  opening : StandsAt rest (last + 1) .openCurly

/-- What stands behind the `if` of a conditional: a parenthesis that is closed, and behind it a brace,
unless the condition goes on. -/
def IsForm (rest : List Token) : Prop :=
  StandsAt rest 0 .openParen ∧ ∃ close, Closes (rest.map Token.parenTurn) close ∧
    (StandsAt rest (close + 1) .openCurly ∨ ∃ last, GoesOn rest close last)

namespace Parse

/-- Every conditional that begins on one of the first tokens has its form. -/
def Formed (p : Setting) (ts : List Token) (n : Nat) : Prop :=
  ∀ i, i < n → (p.current (ts.drop i)).is .ifWord = true → IsForm (ts.drop (i + 1))

/-- The first tokens as a parse without reports passes them: every conditional has its form, and the
parentheses are balanced. -/
structure Accepted (p : Setting) (ts : List Token) (n : Nat) : Prop where
  formed : Formed p ts n
  inward : Inward ((ts.take n).map Token.parenTurn)
  closed : height ((ts.take n).map Token.parenTurn) = 0

/-- The group that an expression begins with ends with the expression or in front of an operator. -/
def GroupEnds (p : Setting) (ts : List Token) (last : Nat) : Prop :=
  (p.current ts).is .openParen = true → ∃ close, close ≤ last ∧
    Closes (ts.map Token.parenTurn) close ∧
      (close = last ∨ ∃ op : BinaryOp, (p.next (ts.drop close)).is op.symbol = true)

/-- What each parsing function passes if it reports nothing. -/
def acceptance (p : Setting) : Contract where
  expression ts _ s := s.errors = [] → Accepted p ts (s.moved + 1) ∧ GroupEnds p ts s.moved
  operators ts _ _ s := s.errors = [] → Accepted p (ts.drop 1) s.moved ∧
    (s.moved = 0 ∨ ∃ op : BinaryOp, (p.next ts).is op.symbol = true)
  operand ts s := s.errors = [] → Accepted p ts (s.moved + 1) ∧
    ((p.current ts).is .openParen = true → Closes (ts.map Token.parenTurn) s.moved)
  branches ts _ s := s.errors = [] → Accepted p (ts.drop 1) s.moved ∧
    (p.current ts).is .closeParen = true ∧ (p.next ts).is .openCurly = true
  otherwise ts _ _ s := s.errors = [] → Accepted p (ts.drop 1) s.moved
  block ts s := s.errors = [] → Accepted p ts (s.moved + 1)
  statements ts inBlock s := s.errors = [] → Accepted p ts s.moved ∧ Ends inBlock (ts.drop s.moved)
  statement ts s := s.errors = [] → Accepted p ts (s.moved + 1)

variable {p : Setting} {t : Token} {ts rest : List Token} {m n : Nat}

/-! ## Passing tokens -/

theorem Formed.append (h : Formed p ts m) (h' : Formed p (ts.drop m) n) :
    Formed p ts (m + n) := by
  intro i hi hIf
  by_cases hLt : i < m
  · exact h i hLt hIf
  · have hAt := h' (i - m) (by omega)
    rw [List.drop_drop, List.drop_drop, ← Nat.add_assoc,
      Nat.add_sub_cancel' (Nat.le_of_not_lt hLt)] at hAt
    exact hAt hIf

theorem formed_one (h : (p.current ts).is .ifWord = true → IsForm (ts.drop 1)) :
    Formed p ts 1 := by
  intro i hi
  obtain rfl : i = 0 := by omega
  exact h

theorem formed_symbol {s : Symbol} (h : (p.current ts).is s = true) (hNot : s ≠ .ifWord) :
    Formed p ts 1 :=
  formed_one fun hIf => absurd (Token.is_unique h hIf) hNot

theorem Formed.behind {s : Symbol} (h : Formed p rest n) (hIs : t.is s = true)
    (hNot : s ≠ .ifWord) : Formed p (t :: rest) (1 + n) := by
  have hOne : Formed p (t :: rest) 1 := formed_symbol hIs hNot
  exact hOne.append h

theorem accepted_zero : Accepted p ts 0 :=
  ⟨fun _ hi => absurd hi (Nat.not_lt_zero _), inward_nil, rfl⟩

theorem Accepted.append (h : Accepted p ts m) (h' : Accepted p (ts.drop m) n) :
    Accepted p ts (m + n) := by
  refine ⟨h.formed.append h'.formed, ?_, ?_⟩
  · rw [List.take_add, List.map_append]
    exact h.inward.append h'.inward
  · rw [List.take_add, List.map_append, height_append, h.closed, h'.closed]
    rfl

theorem Accepted.of_eq (h : Accepted p ts m) (hEq : m = n) : Accepted p ts n :=
  hEq ▸ h

/-- A token that is no parenthesis. -/
theorem accepted_one (hTurn : ∀ t ∈ ts.head?, t.parenTurn = 0)
    (hIf : (p.current ts).is .ifWord = true → IsForm (ts.drop 1)) : Accepted p ts 1 := by
  have hTurns : (ts.take 1).map Token.parenTurn = [] ∨
      (ts.take 1).map Token.parenTurn = [0] := by
    cases ts with
    | nil => exact Or.inl rfl
    | cons t rest =>
      refine Or.inr ?_
      rw [List.take_succ_cons, List.take_zero, List.map_singleton, hTurn t rfl]
  refine ⟨formed_one hIf, ?_, ?_⟩
  · rcases hTurns with hTurns | hTurns <;> rw [hTurns]
    · exact inward_nil
    · exact inward_zero
  · rcases hTurns with hTurns | hTurns <;> rw [hTurns] <;> rfl

theorem parenTurn_of_is {s : Symbol} (h : t.is s = true) (hs : s ≠ .openParen)
    (hs' : s ≠ .closeParen) : t.parenTurn = 0 := by
  rw [Token.parenTurn, Token.turnBy_of_is h, if_neg hs, if_neg hs']

/-- A symbol that is no parenthesis, and what is passed behind it. If it is an `if`, this has to have
the form of a conditional. -/
theorem Accepted.behind {s : Symbol} (h : Accepted p rest n) (hIs : t.is s = true)
    (hs : s ≠ .openParen) (hs' : s ≠ .closeParen) (hIf : s = .ifWord → IsForm rest) :
    Accepted p (t :: rest) (1 + n) := by
  have hOne : Accepted p (t :: rest) 1 := by
    refine accepted_one ?_ fun hIs' => hIf (Token.is_unique hIs hIs')
    rintro _ ⟨⟩
    exact parenTurn_of_is hIs hs hs'
  exact hOne.append h

/-- A symbol that is neither a parenthesis nor an `if`. -/
theorem accepted_symbol (hp : p.IsStandard) {s : Symbol} (h : (p.current ts).is s = true)
    (hs : s ≠ .openParen) (hs' : s ≠ .closeParen) (hNot : s ≠ .ifWord) : Accepted p ts 1 := by
  obtain ⟨t, rest, rfl, hIs⟩ := hp.exists_cons h
  exact accepted_zero.behind hIs hs hs' fun hEq => absurd hEq hNot

/-- A token that stands for no symbol. -/
theorem accepted_plain (h : ∀ s : Symbol, ¬ (p.current ts).is s = true) : Accepted p ts 1 := by
  refine accepted_one ?_ fun hIf => absurd hIf (h _)
  intro t ht
  cases ts with
  | nil => cases ht
  | cons _ _ =>
    cases ht
    exact Token.turnBy_of_not_is h _ _

/-- An opening parenthesis, a balanced part and the closing one. -/
theorem accepted_group (hp : p.IsStandard) (h : Accepted p rest n) (hIs : t.is .openParen = true)
    (hClose : (p.current (rest.drop n)).is .closeParen = true) :
    Accepted p (t :: rest) (1 + n + 1) ∧
      Closes ((t :: rest).map Token.parenTurn) (1 + n) := by
  obtain ⟨close, behind, hDrop, hIs'⟩ := hp.exists_cons hClose
  have hLength : ((rest.take n).map Token.parenTurn).length = n := by
    have hLengthDrop := congrArg List.length hDrop
    rw [List.length_drop, List.length_cons] at hLengthDrop
    rw [List.length_map, List.length_take]
    omega
  have hOpenTurn : t.parenTurn = 1 := Token.turnBy_of_is hIs
  have hCloseTurn : close.parenTurn = -1 := Token.turnBy_of_is hIs'
  have hTake : ((t :: rest).take (1 + n + 1)).map Token.parenTurn =
      1 :: ((rest.take n).map Token.parenTurn ++ [-1]) := by
    rw [Nat.add_comm 1 n, List.take_succ_cons, List.take_add, hDrop, List.take_succ_cons,
      List.take_zero, List.map_cons, List.map_append, List.map_singleton, hOpenTurn, hCloseTurn]
  have hAll : (t :: rest).map Token.parenTurn =
      1 :: ((rest.take n).map Token.parenTurn ++ [-1]) ++
        ((t :: rest).drop (1 + n + 1)).map Token.parenTurn := by
    rw [← hTake, ← List.map_append, List.take_append_drop]
  refine ⟨⟨?_, ?_, ?_⟩, ?_⟩
  · have hLast : Formed p (rest.drop n) 1 := formed_symbol hClose (by decide)
    exact (h.formed.append hLast).behind hIs (by decide)
  · rw [hTake]
    exact h.inward.wrap (Int.le_refl _)
  · rw [hTake, height_wrap, h.closed]
    rfl
  · rw [hAll, closes_append (by rw [length_wrap, hLength]; omega)]
    have hCloses := closes_wrap h.inward h.closed
    rwa [hLength, Nat.add_comm n] at hCloses

/-! ## Expressions -/

theorem accepted_literal {s : Step (Option Expr)} {k : TokenClass} (h : t.tokenClass = k)
    (hNone : ∀ s : Symbol, s.tokenClass ≠ k) (hMoved : s.moved = 0) :
    (acceptance p).operand (t :: rest) s := by
  intro _
  have hPlain := Token.not_is_of_tokenClass h hNone
  rw [hMoved]
  exact ⟨accepted_plain hPlain, fun hOpen => absurd hOpen (hPlain _)⟩

theorem acceptance_opened {floor : BindingPower} {first s : Step (Option Expr)}
    (hFirst : (acceptance p).operand ts first)
    (hRest : (acceptance p).operators (ts.drop first.moved) floor first.value s) :
    (acceptance p).expression ts floor (s.after first.moved first.errors) := by
  intro hClean
  obtain ⟨hCleanFirst, hCleanRest⟩ := List.append_eq_nil_iff.1 hClean
  obtain ⟨hOperand, hCloses⟩ := hFirst hCleanFirst
  obtain ⟨hBehind, hNext⟩ := hRest hCleanRest
  rw [List.drop_drop] at hBehind
  refine ⟨(hOperand.append hBehind).of_eq (Nat.add_right_comm _ _ _), fun hOpen => ?_⟩
  refine ⟨first.moved, Nat.le_add_right _ _, hCloses hOpen, ?_⟩
  rcases hNext with hNone | hOp
  · exact Or.inl (by rw [Step.moved_after, hNone, Nat.add_zero])
  · exact Or.inr hOp

theorem acceptance_fold {head : Token} {op : BinaryOp} {floor : BindingPower}
    {left : Option Expr} {right s : Step (Option Expr)} (hIs : t.is op.symbol = true)
    (hRight : (acceptance p).expression rest op.power right)
    (hRest : (acceptance p).operators (rest.drop right.moved) floor (combine op left right.value) s) :
    (acceptance p).operators (head :: t :: rest) floor left
      (s.after (2 + right.moved) right.errors) := by
  intro hClean
  obtain ⟨hCleanRight, hCleanRest⟩ := List.append_eq_nil_iff.1 hClean
  have hOperand := (hRight hCleanRight).1
  have hBehind := (hRest hCleanRest).1
  rw [List.drop_drop] at hBehind
  refine ⟨((hOperand.append hBehind).behind hIs ?_ ?_ ?_).of_eq ?_, Or.inr ⟨op, hIs⟩⟩
  · cases op <;> decide
  · cases op <;> decide
  · intro hEq
    cases op <;> cases hEq
  · rw [Step.moved_after]
    omega

theorem acceptance_unary {op : UnaryOp} {s : Step (Option Expr)} (hIs : t.is op.symbol = true)
    (hOperand : (acceptance p).expression rest .unary s) :
    (acceptance p).operand (t :: rest) ((s.build (.unary op)).after 1 []) := by
  intro hClean
  refine ⟨(hOperand hClean).1.behind hIs ?_ ?_ ?_, ?_⟩
  · cases op <;> decide
  · cases op <;> decide
  · intro hEq
    cases op <;> cases hEq
  · intro hOpen
    have hEq := Token.is_unique hIs hOpen
    cases op <;> cases hEq

/-- What is closed without a report is closed by its symbol. -/
theorem closing_clean {α : Type} {s : Symbol} {fault : String → Fault} {part : Step (Option α)}
    (h : (closing p s fault ts part).errors = []) :
    part.errors = [] ∧ (closing p s fault ts part).moved = part.moved + 1 ∧
      (p.current (ts.drop (part.moved + 1))).is s = true := by
  have hNext := next_of_closing h
  rw [closing_found hNext] at h ⊢
  refine ⟨h, rfl, ?_⟩
  rw [← List.drop_drop]
  exact hNext

theorem acceptance_group (hp : p.IsStandard) {s : Step (Option Expr)}
    (hIs : t.is .openParen = true) (hInner : (acceptance p).expression rest .lowest s) :
    (acceptance p).operand (t :: rest)
      ((closing p .closeParen (.missingClosingParen "grouped expression") rest s).after 1 []) := by
  intro hClean
  obtain ⟨hCleanInner, hMoved, hClose⟩ := closing_clean hClean
  obtain ⟨hAccepted, hCloses⟩ := accepted_group hp (hInner hCleanInner).1 hIs hClose
  rw [Step.moved_after, hMoved]
  exact ⟨hAccepted, fun _ => hCloses⟩

theorem standsAt_of_current (hp : p.IsStandard) {i : Nat} {s : Symbol}
    (h : (p.current (ts.drop i)).is s = true) : StandsAt ts i s := by
  obtain ⟨t, behind, hDrop, hIs⟩ := hp.exists_cons h
  refine ⟨t, ?_, hIs⟩
  rw [Option.mem_def, ← List.head?_drop, hDrop, List.head?_cons]

theorem standsAt_of_next (hp : p.IsStandard) {i : Nat} {s : Symbol}
    (h : (p.next (ts.drop i)).is s = true) : StandsAt ts (i + 1) s := by
  apply standsAt_of_current hp
  rw [← List.drop_drop]
  exact h

/-- A condition with its parenthesis in front of a brace. -/
theorem isForm_of_condition (hp : p.IsStandard) (hOpen : (p.current rest).is .openParen = true)
    (hAccepted : Accepted p rest (n + 1)) (hGroup : GroupEnds p rest n)
    (hClose : (p.current (rest.drop n)).is .closeParen = true)
    (hBrace : (p.next (rest.drop n)).is .openCurly = true) : IsForm rest := by
  refine ⟨standsAt_of_current hp hOpen, ?_⟩
  obtain ⟨close, hLe, hCloses, hEnd⟩ := hGroup hOpen
  refine ⟨close, hCloses, ?_⟩
  rcases Nat.eq_or_lt_of_le hLe with rfl | hLt
  · exact Or.inl (standsAt_of_next hp hBrace)
  · rcases hEnd with hEq | ⟨op, hOp⟩
    · exact absurd hLt (by omega)
    · exact Or.inr ⟨n, ⟨op, standsAt_of_next hp hOp⟩, hLt, hAccepted.inward, hAccepted.closed,
        standsAt_of_current hp hClose, standsAt_of_next hp hBrace⟩

theorem acceptance_cond (hp : p.IsStandard) {condition s : Step (Option Expr)}
    (hIs : t.is .ifWord = true) (hOpen : (p.current rest).is .openParen = true)
    (hCondition : (acceptance p).expression rest .lowest condition)
    (hRest : (acceptance p).branches (rest.drop condition.moved) condition.value s) :
    (acceptance p).operand (t :: rest) (s.after (1 + condition.moved) condition.errors) := by
  intro hClean
  obtain ⟨hCleanCondition, hCleanRest⟩ := List.append_eq_nil_iff.1 hClean
  obtain ⟨hAccepted, hGroup⟩ := hCondition hCleanCondition
  obtain ⟨hBehind, hClose, hBrace⟩ := hRest hCleanRest
  have hForm := isForm_of_condition hp hOpen hAccepted hGroup hClose hBrace
  rw [List.drop_drop] at hBehind
  refine ⟨((hAccepted.append hBehind).behind hIs (by decide) (by decide) fun _ => hForm).of_eq ?_,
    ?_⟩
  · rw [Step.moved_after]
    omega
  · intro hOpen'
    cases Token.is_unique hIs hOpen'

theorem acceptance_branches {close opening : Token} {condition : Option Expr}
    {body : Step (List Stmt)} {s : Step (Option Expr)} (hClose : close.is .closeParen = true)
    (hOpening : opening.is .openCurly = true)
    (hBody : (acceptance p).block (opening :: rest) body)
    (hRest : (acceptance p).otherwise ((opening :: rest).drop body.moved) condition body.value s) :
    (acceptance p).branches (close :: opening :: rest) condition
      (s.after (1 + body.moved) body.errors) := by
  intro hClean
  obtain ⟨hCleanBody, hCleanRest⟩ := List.append_eq_nil_iff.1 hClean
  have hBehind := hRest hCleanRest
  rw [List.drop_drop] at hBehind
  refine ⟨((hBody hCleanBody).append hBehind).of_eq ?_, hClose, hOpening⟩
  rw [Step.moved_after, Nat.add_comm 1]

theorem acceptance_otherwise {last word opening : Token} {condition : Option Expr}
    {body : List Stmt} {other : Step (List Stmt)} (hElse : word.is .elseWord = true)
    (hOther : (acceptance p).block (opening :: rest) other) :
    (acceptance p).otherwise (last :: word :: opening :: rest) condition body
      ⟨condition.map fun c => .cond c body (some other.value), 2 + other.moved, other.errors⟩ := by
  intro hClean
  refine ((hOther hClean).behind hElse (by decide) (by decide) nofun).of_eq ?_
  dsimp only
  omega

/-! ## Statements -/

/-- The token that statements end before is passed with the block. -/
theorem accepted_ends (hp : p.IsStandard) (h : Ends true ts) : Accepted p ts 1 := by
  by_cases hClose : (p.current ts).is .closeCurly = true
  · exact accepted_symbol hp hClose (by decide) (by decide) (by decide)
  · refine accepted_plain (Token.not_is_of_isEnd ?_)
    cases ts with
    | nil => exact hp.endMark
    | cons t rest =>
      rcases h t rfl with hEnd | ⟨-, hIs⟩
      · exact hEnd
      · exact absurd hIs hClose

theorem acceptance_block (hp : p.IsStandard) {s : Step (List Stmt)} (hIs : t.is .openCurly = true)
    (hBody : (acceptance p).statements rest true s) :
    (acceptance p).block (t :: rest) (s.after 1 []) := by
  intro hClean
  obtain ⟨hAccepted, hEnds⟩ := hBody hClean
  exact (hAccepted.append (accepted_ends hp hEnds)).behind hIs (by decide) (by decide) nofun

theorem acceptance_next {inBlock : Bool} {one : Step (Option Stmt)} {others : Step (List Stmt)}
    (hOne : (acceptance p).statement (t :: rest) one)
    (hOthers : (acceptance p).statements (rest.drop one.moved) inBlock others) :
    (acceptance p).statements (t :: rest) inBlock
      ⟨one.value.toList ++ others.value, one.moved + 1 + others.moved,
        one.errors ++ others.errors⟩ := by
  intro hClean
  obtain ⟨hCleanOne, hCleanOthers⟩ := List.append_eq_nil_iff.1 hClean
  obtain ⟨hAccepted, hEnds⟩ := hOthers hCleanOthers
  exact ⟨(hOne hCleanOne).append hAccepted, hEnds.behind⟩

/-- What a semicolon ends. -/
theorem accepted_closing (hp : p.IsStandard) {fault : String → Fault} {part : Step (Option Expr)}
    (hPart : (acceptance p).expression ts .lowest part)
    (h : (closing p .semicolon fault ts part).errors = []) :
    Accepted p ts ((closing p .semicolon fault ts part).moved + 1) := by
  obtain ⟨hClean, hMoved, hClose⟩ := closing_clean h
  rw [hMoved]
  exact (hPart hClean).1.append (accepted_symbol hp hClose (by decide) (by decide) (by decide))

theorem acceptance_expressionStmt (hp : p.IsStandard) {s : Step (Option Expr)}
    (hExpr : (acceptance p).expression ts .lowest s) :
    (acceptance p).statement ts ⟨s.value.map .expr,
      s.moved + (if (p.next (ts.drop s.moved)).is .semicolon then 1 else 0), s.errors⟩ := by
  intro hClean
  have hAccepted := (hExpr hClean).1
  dsimp only
  split
  · rename_i hNext
    unfold Setting.next at hNext
    rw [List.drop_drop] at hNext
    exact hAccepted.append (accepted_symbol hp hNext (by decide) (by decide) (by decide))
  · exact hAccepted

/-- A declaration up to the sign behind its name. -/
theorem Accepted.declared {word sign : Token} {s : Symbol} (h : Accepted p rest n)
    (hIs : t.is .varWord = true) (hName : word.tokenClass = .identifier) (hSign : sign.is s = true)
    (hs : s ≠ .openParen) (hs' : s ≠ .closeParen) (hNot : s ≠ .ifWord) :
    Accepted p (t :: word :: sign :: rest) (3 + n) := by
  have hSymbol : Accepted p (sign :: rest) (1 + n) :=
    h.behind hSign hs hs' fun hEq => absurd hEq hNot
  have hWord : Accepted p (word :: sign :: rest) 1 :=
    accepted_plain (Token.not_is_of_tokenClass hName fun s => s.tokenClass_ne.2.2.1)
  exact ((hWord.append hSymbol).behind hIs (by decide) (by decide) nofun).of_eq (by omega)

/-- Each way to a result without reports passes such tokens. -/
theorem acceptance_respected (hp : p.IsStandard) : (acceptance p).Respected p where
  noOperand _ hClean := by cases hClean
  opened _ hFirst hRest := acceptance_opened hFirst hRest
  stop _ _ := ⟨accepted_zero, Or.inl rfl⟩
  fold hIs _ hRight hRest := acceptance_fold hIs hRight hRest
  integer h := accepted_literal h (fun s => s.tokenClass_ne.1) (builtOrFault_integer _).moved
  truth h := accepted_literal h (fun s => s.tokenClass_ne.2.1) (builtOrFault_truth _).moved
  name h := accepted_literal h (fun s => s.tokenClass_ne.2.2.1) rfl
  unary hIs hOperand := acceptance_unary hIs hOperand
  group hIs hInner := acceptance_group hp hIs hInner
  cond hIs hOpen hCondition hRest := acceptance_cond hp hIs hOpen hCondition hRest
  condUnopened _ _ hClean := by cases hClean
  branches hClose hOpening hBody hRest := acceptance_branches hClose hOpening hBody hRest
  branchesUnclosed _ hClean := by cases hClean
  branchesUnopened _ _ hClean := by cases hClean
  otherwiseNone _ _ := accepted_zero
  otherwise hElse _ hOther := acceptance_otherwise hElse hOther
  otherwiseUnopened _ _ hClean := by cases hClean
  block hIs hBody := acceptance_block hp hIs hBody
  ends hEnds _ := ⟨accepted_zero, hEnds⟩
  next _ hOne hOthers := acceptance_next hOne hOthers
  expressionStmt _ _ hExpr := acceptance_expressionStmt hp hExpr
  ret hIs hExpr hClean :=
    (accepted_closing hp hExpr hClean).behind hIs (by decide) (by decide) nofun
  varDecl hIs hName hSign hExpr hClean :=
    (accepted_closing hp hExpr hClean).declared hIs hName hSign (by decide) (by decide) (by decide)
  varDeclNone hIs hName hSign _ :=
    accepted_zero.declared hIs hName hSign (by decide) (by decide) (by decide)
  varDeclUnnamed _ _ hClean := by cases hClean
  varDeclUnassigned _ _ _ _ hClean := by cases hClean

/-! ## Programs -/

theorem is_of_standsAt {i : Nat} {s : Symbol} (h : StandsAt ts i s) :
    (p.current (ts.drop i)).is s = true := by
  obtain ⟨t, ht, hIs⟩ := h
  rw [Option.mem_def, ← List.head?_drop, List.head?_eq_some_iff] at ht
  obtain ⟨behind, hDrop⟩ := ht
  rwa [hDrop]

/-- A parse of a list does not stop in front of its first mark of the end. -/
theorem lt_moved_of_ends {i : Nat} {s : Symbol} (hEnds : Ends false (ts.drop m))
    (h : StandsAt ts i s) (hBefore : ∀ u ∈ ts.take i, ¬ u.isEnd = true) : i < m := by
  apply Nat.lt_of_not_le
  intro hLe
  obtain ⟨t, ht, hIs⟩ := h
  obtain ⟨hi, rfl⟩ := List.getElem?_eq_some_iff.1 ht
  have hm : m < ts.length := Nat.lt_of_le_of_lt hLe hi
  have hEnd : ts[m].isEnd = true := by
    rcases hEnds ts[m] (by rw [List.head?_drop, List.getElem?_eq_getElem hm]; rfl) with
      hEnd | ⟨hFalse, -⟩
    · exact hEnd
    · cases hFalse
  rcases Nat.eq_or_lt_of_le hLe with rfl | hLt
  · exact Token.not_is_of_isEnd hEnd s hIs
  · refine hBefore ts[m] ?_ hEnd
    rw [List.mem_take_iff_getElem]
    exact ⟨m, by omega, rfl⟩

/-- In a token list that is parsed without reports, every `if` that stands in front of the first mark
of the end begins a conditional: the parenthesis behind it is closed, and behind that stands a brace,
unless an operator does. Then the condition goes on up to a later parenthesis with a brace behind
it. -/
theorem isForm_of_parse {tokens : List Token} {i : Nat}
    (hClean : (Program.parse tokens).errors = []) (hIf : StandsAt tokens i .ifWord)
    (hBefore : ∀ u ∈ tokens.take i, ¬ u.isEnd = true) : IsForm (tokens.drop (i + 1)) := by
  have hp := isStandard_ofTokens tokens
  obtain ⟨hAccepted, hEnds⟩ :=
    (Contract.holdsAt (acceptance_respected hp) hp tokens).statements false hClean
  exact hAccepted.formed i (lt_moved_of_ends hEnds hIf hBefore) (is_of_standsAt hIf)

/-- A conditional behind a declaration. -/
theorem isForm_of_parse_declared :
    (Program.ofSource .default "var a = 1; if (a) \x7b b \x7d").errors = [] ∧
      StandsAt (Reading.default.tokens "var a = 1; if (a) \x7b b \x7d") 5 .ifWord ∧
      IsForm ((Reading.default.tokens "var a = 1; if (a) \x7b b \x7d").drop 6) := by
  have hClean : (Program.ofSource .default "var a = 1; if (a) \x7b b \x7d").errors = [] := by
    decide +kernel
  have hIf : StandsAt (Reading.default.tokens "var a = 1; if (a) \x7b b \x7d") 5 .ifWord := by
    decide +kernel
  exact ⟨hClean, hIf, isForm_of_parse hClean hIf (by decide +kernel)⟩

/-- The parenthesis behind this `if` is closed in front of an operator, and nothing is reported. -/
theorem not_braced_of_parse :
    (Program.ofSource .default "if (a) + (b) \x7b c \x7d").errors = [] ∧
      StandsAt (Reading.default.tokens "if (a) + (b) \x7b c \x7d") 0 .ifWord ∧
      Closes (((Reading.default.tokens "if (a) + (b) \x7b c \x7d").drop 1).map Token.parenTurn) 2 ∧
      ¬ StandsAt ((Reading.default.tokens "if (a) + (b) \x7b c \x7d").drop 1) 3 .openCurly := by
  refine ⟨?_, ?_, ?_, ?_⟩
  · decide +kernel
  · decide +kernel
  · decide +kernel
  · decide +kernel

end Parse
end Frontend
