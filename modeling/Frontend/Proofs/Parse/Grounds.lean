import Frontend.Proofs.Parse.Contract

/-!
# The grounds of reports

Whatever is reported is about a token that the parse came to, and has its ground in that token: it is
not the symbol that has to stand there, it begins no operand, or it is a literal that stands for no
value. An operator that is looked up is always found, since the tables give a key a power only with
a rule and an operator, and the rule for operators in front of an operand only to their symbols. So
there are faults that no parse reports.

* `Fault.HasGround`: the faults that can be reported about a token.
* `operator_found`, `unaryOp_found`: what a look-up in the tables finds.
* `grounding_respected`: each way to a result reports about tokens from its place on, with a ground.
* `exists_ground_of_error`: for a token list, which may lack the mark of its end.
-/

namespace Frontend

/-- The faults that a parse can report about a token. -/
inductive Fault.HasGround (t : Token) : Fault → Prop where
  | expectedName (h : t.tokenClass ≠ .identifier) : HasGround t (.expectedName t.describe)
  | expectedAssignment (hEnd : ¬ t.is .semicolon = true) (hValue : ¬ t.is .assignment = true) :
    HasGround t (.expectedAssignment t.describe)
  | missingSemicolon (context : String) (h : ¬ t.is .semicolon = true) :
    HasGround t (.missingSemicolon context t.describe)
  | missingOpeningParen (context : String) (h : ¬ t.is .openParen = true) :
    HasGround t (.missingOpeningParen context t.describe)
  | missingClosingParen (context : String) (h : ¬ t.is .closeParen = true) :
    HasGround t (.missingClosingParen context t.describe)
  | missingOpeningCurly (context : String) (h : ¬ t.is .openCurly = true) :
    HasGround t (.missingOpeningCurly context t.describe)
  | noOperand (h : ∀ rule, ¬ Opening t rule) : HasGround t (.noOperand t.describe)
  | notInteger (hClass : t.tokenClass = .number) (h : Decimal.toInt64? t.lexeme = none) :
    HasGround t (.notInteger t.lexeme)
  | notTruth (hClass : t.tokenClass = .boolean) (h : Truth.ofText? t.lexeme = none) :
    HasGround t (.notTruth t.lexeme)

/-! ## What a look-up finds -/

/-- A token that binds more tightly than something has a rule as an operator, and stands for one. -/
theorem operator_found {t : Token} {floor : BindingPower}
    (h : floor < Grammar.standard.power t) :
    Grammar.standard.operators.get? t.key = some .binary ∧
      ∃ op, t.symbol?.bind BinaryOp.ofSymbol? = some op := by
  obtain ⟨op, hIs⟩ := exists_operator_of_lt h
  exact ⟨operatorRule_of_is hIs, op, binaryOp_of_is hIs⟩

/-- A token with the rule for operators in front of an operand stands for one. -/
theorem unaryOp_found {t : Token} (h : Grammar.standard.operands.get? t.key = some .unary) :
    ∃ op, t.symbol?.bind UnaryOp.ofSymbol? = some op := by
  cases opening_iff.1 h with
  | unary op hIs => exact ⟨op, unaryOp_of_is hIs⟩

namespace Parse

variable {p : Setting} {ts rest : List Token} {t : Token} {errors errors' : List Diagnostic}
  {k : Nat} {f : Fault}

/-! ## Reports from a place on -/

/-- Each report is about a token at the place or behind it, and has its ground there. -/
def Grounded (p : Setting) (ts : List Token) (errors : List Diagnostic) : Prop :=
  ∀ d ∈ errors, ∃ k f, f.HasGround (p.current (ts.drop k)) ∧ d = faultAt (p.current (ts.drop k)) f

theorem grounded_nil : Grounded p ts [] :=
  fun _ hd => absurd hd List.not_mem_nil

theorem grounded_fault (k : Nat) (hf : f.HasGround (p.current (ts.drop k))) :
    Grounded p ts [faultAt (p.current (ts.drop k)) f] := by
  intro d hd
  exact ⟨k, f, hf, List.mem_singleton.1 hd⟩

theorem grounded_here (hf : f.HasGround (p.current ts)) :
    Grounded p ts [faultAt (p.current ts) f] :=
  grounded_fault 0 hf

theorem grounded_next (hf : f.HasGround (p.next ts)) : Grounded p ts [faultAt (p.next ts) f] :=
  grounded_fault 1 hf

theorem Grounded.behind (h : Grounded p (ts.drop k) errors) : Grounded p ts errors := by
  intro d hd
  obtain ⟨j, f, hGround, hReport⟩ := h d hd
  rw [List.drop_drop] at hGround hReport
  exact ⟨k + j, f, hGround, hReport⟩

theorem Grounded.inFront (h : Grounded p rest errors) : Grounded p (t :: rest) errors :=
  Grounded.behind (k := 1) h

theorem Grounded.append (h : Grounded p ts errors) (h' : Grounded p (ts.drop k) errors') :
    Grounded p ts (errors ++ errors') := by
  intro d hd
  rcases List.mem_append.1 hd with hFirst | hSecond
  · exact h d hFirst
  · exact h'.behind d hSecond

theorem Grounded.closing {α : Type} {part : Step (Option α)} {s : Symbol}
    {fault : String → Fault} (h : Grounded p ts part.errors)
    (hFault : ∀ t : Token, ¬ t.is s = true → (fault t.describe).HasGround t) :
    Grounded p ts (closing p s fault ts part).errors := by
  by_cases hNext : (p.next (ts.drop part.moved)).is s = true
  · rw [closing_found hNext]
    exact h
  · rw [closing_missing hNext]
    exact h.append (grounded_next (hFault _ hNext))

theorem grounded_integer (hClass : t.tokenClass = .number) :
    Grounded p (t :: rest) (integer t).errors := by
  unfold integer
  split
  · exact grounded_nil
  · rename_i hRead
    exact grounded_fault 0 (.notInteger hClass hRead)

theorem grounded_truth (hClass : t.tokenClass = .boolean) :
    Grounded p (t :: rest) (truth t).errors := by
  unfold truth
  split
  · exact grounded_nil
  · rename_i hRead
    exact grounded_fault 0 (.notTruth hClass hRead)

/-! ## The contract -/

/-- All parsing functions report about tokens from their place on, each time with a ground. -/
def grounding (p : Setting) : Contract where
  expression ts _ s := Grounded p ts s.errors
  operators ts _ _ s := Grounded p ts s.errors
  operand ts s := Grounded p ts s.errors
  branches ts _ s := Grounded p ts s.errors
  otherwise ts _ _ s := Grounded p ts s.errors
  block ts s := Grounded p ts s.errors
  statements ts _ s := Grounded p ts s.errors
  statement ts s := Grounded p ts s.errors

theorem grounding_respected (p : Setting) : (grounding p).Respected p where
  noOperand hNone := grounded_here (.noOperand hNone)
  opened _ hFirst hRest := hFirst.append hRest
  stop _ := grounded_nil
  fold _ _ hRight hRest := (hRight.append hRest).inFront.inFront
  integer hClass := grounded_integer hClass
  truth hClass := grounded_truth hClass
  name _ := grounded_nil
  unary _ hOperand := hOperand.inFront
  group _ hInner := (hInner.closing fun _ => .missingClosingParen _).inFront
  cond _ _ hCondition hRest := (hCondition.append hRest).inFront
  condUnopened _ hOpen := (grounded_here (.missingOpeningParen _ hOpen)).inFront
  branches _ _ hBody hRest := (hBody.append hRest).inFront
  branchesUnclosed hClose := grounded_here (.missingClosingParen _ hClose)
  branchesUnopened _ hOpening := grounded_next (.missingOpeningCurly _ hOpening)
  otherwiseNone _ := grounded_nil
  otherwise _ _ hOther := hOther.inFront.inFront
  otherwiseUnopened _ hOpening :=
    Grounded.behind (k := 1) (grounded_next (.missingOpeningCurly _ hOpening))
  block _ hBody := hBody.inFront
  ends _ := grounded_nil
  next {t rest _ one others} _ hOne hOthers := by
    have hBehind : Grounded p ((t :: rest).drop (one.moved + 1)) others.errors := hOthers
    exact hOne.append hBehind
  expressionStmt _ _ hValue := hValue
  ret _ hValue := (hValue.closing fun _ => .missingSemicolon _).inFront
  varDecl _ _ _ hValue := (hValue.closing fun _ => .missingSemicolon _).inFront.inFront.inFront
  varDeclNone _ _ _ := grounded_nil
  varDeclUnnamed _ hName := (grounded_here (.expectedName hName)).inFront
  varDeclUnassigned _ _ hSemicolon hAssignment :=
    (grounded_next (.expectedAssignment hSemicolon hAssignment)).inFront

/-- Each report of a parse has its ground in a token of the list or in the mark that is seen behind
it. -/
theorem exists_ground_of_error {tokens : List Token} {d : Diagnostic}
    (hError : d ∈ (Program.parse tokens).errors) :
    ∃ t, (t ∈ tokens ∨ t = Program.endMark tokens) ∧
      ∃ f, f.HasGround t ∧ d = faultAt t f := by
  have hHolds := Contract.holdsAt (grounding_respected _) (isStandard_ofTokens tokens) tokens
  have hGrounded : Grounded (.ofTokens tokens) tokens (Program.parse tokens).errors :=
    hHolds.statements false
  obtain ⟨k, f, hGround, hReport⟩ := hGrounded d hError
  refine ⟨_, ?_, f, hGround, hReport⟩
  cases hBehind : tokens.drop k with
  | nil => exact Or.inr rfl
  | cons t rest =>
    left
    apply List.mem_of_mem_drop (i := k)
    rw [hBehind]
    exact List.mem_cons_self

end Parse

end Frontend
