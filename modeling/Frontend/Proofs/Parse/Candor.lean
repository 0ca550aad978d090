import Frontend.Proofs.Parse.Call

/-!
# No failure is silent

A function that builds nothing has reported why, unless it was already handed nothing to go on from.
A function that builds a tree has reported nothing on the way; only a conditional may hide reports,
since its blocks leave out the statements that fail. So a parse that reports nothing has left out
nothing, at any depth.

* `Expr.hasCond`, `Expr.blocks`, `attempts`: what the statements below speak of.
* `candid_respected`: each way to a result is candid about its failures.
* `Makes.errors`, `Makes.blocks`: a function reports what its calls report, and what it builds holds
  the blocks that they build.
* `Reaches.clean`: a function that reports nothing comes to no call that reports something, and
  keeps the blocks that these build.
* `candid_calls`: what a call leaves of a parse led by hand, and what a parse without reports keeps.
-/

namespace Frontend

/-! ## Conditionals and blocks within trees -/

mutual

/-- Whether a conditional stands in the expression. -/
def Expr.hasCond : Expr → Bool
  | .int _ => false
  | .bool _ => false
  | .name _ => false
  | .unary _ e => e.hasCond
  | .binary _ l r => l.hasCond || r.hasCond
  | .cond _ _ _ => true

/-- Whether a conditional stands in the statement. -/
def Stmt.hasCond : Stmt → Bool
  | .varDecl _ none => false
  | .varDecl _ (some e) => e.hasCond
  | .ret e => e.hasCond
  | .expr e => e.hasCond
  | .block body => bodyHasCond body

/-- Whether a conditional stands in one of the statements. -/
def bodyHasCond : List Stmt → Bool
  | [] => false
  | s :: rest => s.hasCond || bodyHasCond rest

end

mutual

/-- The statement lists of all blocks in the expression, at any depth. -/
def Expr.blocks : Expr → List (List Stmt)
  | .int _ => []
  | .bool _ => []
  | .name _ => []
  | .unary _ e => e.blocks
  | .binary _ l r => l.blocks ++ r.blocks
  | .cond c body none => c.blocks ++ body :: nestedBlocks body
  | .cond c body (some other) =>
    c.blocks ++ (body :: nestedBlocks body ++ other :: nestedBlocks other)

/-- The statement lists of all blocks in the statement, at any depth. -/
def Stmt.blocks : Stmt → List (List Stmt)
  | .varDecl _ none => []
  | .varDecl _ (some e) => e.blocks
  | .ret e => e.blocks
  | .expr e => e.blocks
  | .block body => body :: nestedBlocks body

/-- The statement lists of all blocks in the statements, at any depth. -/
def nestedBlocks : List Stmt → List (List Stmt)
  | [] => []
  | s :: rest => s.blocks ++ nestedBlocks rest

end

namespace Parse

/-- Whether a conditional stands in what was built. -/
def Node.hasCond : Node → Bool
  | .expr e => e.hasCond
  | .stmt s => s.hasCond
  | .block body => bodyHasCond body
  | .statements list => bodyHasCond list

/-- Whether a single expression or statement was built. -/
def Node.isSingle : Node → Bool
  | .expr _ => true
  | .stmt _ => true
  | _ => false

/-- The statement lists of all blocks in what was built. A block is one of them itself. -/
def Node.blocks : Node → List (List Stmt)
  | .expr e => e.blocks
  | .stmt s => s.blocks
  | .block body => body :: nestedBlocks body
  | .statements list => nestedBlocks list

/-- What the statements that begin on the way to the end give, one after the other: nothing where
one fails. -/
def attempts (p : Setting) (ts : List Token) (inBlock : Bool) : List (Option Stmt) :=
  match ts with
  | [] => []
  | t :: rest =>
    if t.isEnd ∨ inBlock ∧ t.is .closeCurly then []
    else
      let one := statement p (t :: rest)
      one.value :: attempts p (rest.drop one.moved) inBlock
termination_by ts.length
decreasing_by
  simp only [List.length_drop, List.length_cons]
  omega

variable {p : Setting} {t : Token} {ts rest : List Token} {floor : BindingPower}

/-! ## The contract -/

/-- The expression is a part of the other as far as conditionals and blocks go. -/
structure Kept (part whole : Expr) : Prop where
  blocks : part.blocks ⊆ whole.blocks
  hasCond : whole.hasCond = false → part.hasCond = false

/-- A step of a function that is handed everything it needs: it reports if it builds nothing, and
only then unless there is a conditional. -/
structure Candid {α : Type} (hasCond : α → Bool) (s : Step (Option α)) : Prop where
  reports : s.value = none → s.errors ≠ []
  silent : ∀ v, s.value = some v → hasCond v = false → s.errors = []

/-- A step that goes on from an operand, which may be missing. -/
structure CandidFrom (left : Option Expr) (s : Step (Option Expr)) : Prop where
  reports : s.value = none → left = none ∨ s.errors ≠ []
  silent : ∀ v, s.value = some v → v.hasCond = false → s.errors = []
  keeps : ∀ v, s.value = some v → ∃ l, left = some l ∧ Kept l v

/-- A step that builds a conditional around a condition, which may be missing, and bodies. -/
structure CandidCond (condition : Option Expr) (bodies : List (List Stmt))
    (s : Step (Option Expr)) : Prop where
  reports : s.value = none → condition = none ∨ s.errors ≠ []
  hasCond : ∀ v, s.value = some v → v.hasCond = true
  keeps : ∀ v, s.value = some v → ∃ c, condition = some c ∧ c.blocks ⊆ v.blocks
  keepsBodies : ∀ v, s.value = some v → ∀ b ∈ bodies, b :: nestedBlocks b ⊆ v.blocks

/-- How candid each parsing function is. A block and a list of statements are always built. -/
def candid : Contract where
  expression _ _ s := Candid Expr.hasCond s
  operators _ _ left s := CandidFrom left s
  operand _ s := Candid Expr.hasCond s
  branches _ condition s := CandidCond condition [] s
  otherwise _ condition body s := CandidCond condition [body] s
  block _ _ := True
  statements _ _ _ := True
  statement _ s := Candid Stmt.hasCond s

/-! ## Expressions -/

theorem Kept.refl (e : Expr) : Kept e e :=
  ⟨List.Subset.refl _, id⟩

theorem Kept.trans {a b c : Expr} (hab : Kept a b) (hbc : Kept b c) : Kept a c :=
  ⟨List.Subset.trans hab.blocks hbc.blocks, fun h => hab.hasCond (hbc.hasCond h)⟩

theorem combine_eq_none {op : BinaryOp} {left right : Option Expr}
    (h : combine op left right = none) : left = none ∨ right = none := by
  cases left <;> cases right <;> simp_all [combine]

theorem candid_fault {α : Type} {hasCond : α → Bool} {s : Step (Option α)}
    (hValue : s.value = none) (hErrors : s.errors ≠ []) : Candid hasCond s := by
  refine ⟨fun _ => hErrors, ?_⟩
  intro v hSome
  rw [hValue] at hSome
  cases hSome

theorem candid_fail {α : Type} {hasCond : α → Bool} (t : Token) (f : Fault) :
    Candid hasCond (fail t f : Step (Option α)) :=
  candid_fault rfl (List.cons_ne_nil _ _)

theorem candid_built {α : Type} {hasCond : α → Bool} {s : Step (Option α)} {v : α}
    (hValue : s.value = some v) (hErrors : s.errors = []) : Candid hasCond s := by
  refine ⟨?_, fun _ _ _ => hErrors⟩
  intro hNone
  rw [hValue] at hNone
  cases hNone

theorem candidCond_fail {condition : Option Expr} {bodies : List (List Stmt)}
    {s : Step (Option Expr)} (hValue : s.value = none) (hErrors : s.errors ≠ []) :
    CandidCond condition bodies s := by
  have hNot : ∀ v, s.value ≠ some v := by
    intro v hSome
    rw [hValue] at hSome
    cases hSome
  exact ⟨fun _ => Or.inr hErrors, fun v hSome => absurd hSome (hNot v),
    fun v hSome => absurd hSome (hNot v), fun v hSome => absurd hSome (hNot v)⟩

theorem BuiltOrFault.candid {s : Step (Option Expr)} (h : BuiltOrFault t s) :
    Candid Expr.hasCond s := by
  rcases h with ⟨e, rfl⟩ | ⟨f, rfl⟩
  · exact candid_built rfl rfl
  · exact candid_fail _ _

theorem candid_name (t : Token) : Candid Expr.hasCond (name t) :=
  candid_built rfl rfl

/-- What is built around a tree is reported like the tree. -/
theorem Candid.around {α β : Type} {ofPart : α → Bool} {ofWhole : β → Bool} {s : Step (Option α)}
    {f : α → β} {k : Nat} (hs : Candid ofPart s) (hf : ∀ v, ofWhole (f v) = ofPart v) :
    Candid ofWhole ⟨s.value.map f, k, s.errors⟩ := by
  constructor
  · intro hNone
    exact hs.reports (Option.map_eq_none_iff.1 hNone)
  · intro v hSome hCond
    obtain ⟨part, hPart, rfl⟩ := Option.map_eq_some_iff.1 hSome
    rw [hf] at hCond
    exact hs.silent part hPart hCond

theorem Candid.moving {α : Type} {hasCond : α → Bool} {s : Step (Option α)}
    (hs : Candid hasCond s) (k : Nat) : Candid hasCond (s.after k []) :=
  ⟨hs.reports, hs.silent⟩

theorem Candid.closing {α : Type} {hasCond : α → Bool} {part : Step (Option α)}
    (hPart : Candid hasCond part) (s : Symbol) (fault : String → Fault) :
    Candid hasCond (closing p s fault ts part) := by
  by_cases h : (p.next (ts.drop part.moved)).is s = true
  · rw [closing_found h]
    exact ⟨hPart.reports, hPart.silent⟩
  · rw [closing_missing h]
    exact candid_fault rfl (by simp)

theorem Candid.thenOperators {first s : Step (Option Expr)} (hFirst : Candid Expr.hasCond first)
    (hRest : CandidFrom first.value s) :
    Candid Expr.hasCond (s.after first.moved first.errors) := by
  constructor
  · intro hNone hClean
    obtain ⟨hCleanFirst, hCleanRest⟩ := List.append_eq_nil_iff.1 hClean
    rcases hRest.reports hNone with hMissing | hReported
    · exact hFirst.reports hMissing hCleanFirst
    · exact hReported hCleanRest
  · intro v hSome hCond
    obtain ⟨l, hLeft, hKept⟩ := hRest.keeps v hSome
    have hCleanFirst : first.errors = [] := hFirst.silent l hLeft (hKept.hasCond hCond)
    rw [Step.errors_after, hCleanFirst, hRest.silent v hSome hCond, List.append_nil]

theorem candidFrom_stay (left : Option Expr) : CandidFrom left (.stay left) :=
  ⟨Or.inl, fun _ _ _ => rfl, fun v hSome => ⟨v, hSome, .refl v⟩⟩

theorem CandidFrom.trans {left : Option Expr} {first s : Step (Option Expr)}
    (hFirst : CandidFrom left first) (hRest : CandidFrom first.value s) (k : Nat) :
    CandidFrom left (s.after k first.errors) := by
  constructor
  · intro hNone
    rcases hRest.reports hNone with hMissing | hReported
    · rcases hFirst.reports hMissing with hLeft | hReported
      · exact Or.inl hLeft
      · exact Or.inr fun hClean => hReported (List.append_eq_nil_iff.1 hClean).1
    · exact Or.inr fun hClean => hReported (List.append_eq_nil_iff.1 hClean).2
  · intro v hSome hCond
    obtain ⟨middle, hMiddle, hKept⟩ := hRest.keeps v hSome
    have hCleanFirst : first.errors = [] := hFirst.silent middle hMiddle (hKept.hasCond hCond)
    rw [Step.errors_after, hCleanFirst, hRest.silent v hSome hCond, List.append_nil]
  · intro v hSome
    obtain ⟨middle, hMiddle, hKept⟩ := hRest.keeps v hSome
    obtain ⟨l, hLeft, hKeptFirst⟩ := hFirst.keeps middle hMiddle
    exact ⟨l, hLeft, hKeptFirst.trans hKept⟩

theorem candidFrom_combine {op : BinaryOp} {left : Option Expr} {right : Step (Option Expr)}
    (hRight : Candid Expr.hasCond right) (k : Nat) :
    CandidFrom left ⟨combine op left right.value, k, right.errors⟩ := by
  constructor
  · intro hNone
    exact (combine_eq_none hNone).imp_right hRight.reports
  · intro v hSome hCond
    obtain ⟨l, r, -, hValue, rfl⟩ := combine_eq_some_iff.1 hSome
    exact hRight.silent r hValue (Bool.or_eq_false_iff.1 hCond).2
  · intro v hSome
    obtain ⟨l, r, hLeft, -, rfl⟩ := combine_eq_some_iff.1 hSome
    exact ⟨l, hLeft, List.subset_append_left _ _, fun hCond => (Bool.or_eq_false_iff.1 hCond).1⟩

theorem Candid.thenBranches {condition s : Step (Option Expr)}
    (hCondition : Candid Expr.hasCond condition) (hRest : CandidCond condition.value [] s)
    (k : Nat) :
    Candid Expr.hasCond (s.after k condition.errors) := by
  constructor
  · intro hNone hClean
    obtain ⟨hCleanCondition, hCleanRest⟩ := List.append_eq_nil_iff.1 hClean
    rcases hRest.reports hNone with hMissing | hReported
    · exact hCondition.reports hMissing hCleanCondition
    · exact hReported hCleanRest
  · intro v hSome hCond
    have hTrue := hRest.hasCond v hSome
    rw [hCond] at hTrue
    cases hTrue

theorem CandidCond.afterBody {condition : Option Expr} {bodies : List (List Stmt)}
    {s : Step (Option Expr)} (hs : CandidCond condition bodies s) (k : Nat)
    (errors : List Diagnostic) : CandidCond condition [] (s.after k errors) := by
  refine ⟨?_, hs.hasCond, hs.keeps, fun _ _ b hb => absurd hb List.not_mem_nil⟩
  intro hNone
  refine (hs.reports hNone).imp_right ?_
  intro hReported hClean
  exact hReported (List.append_eq_nil_iff.1 hClean).2

/-- A conditional holds its condition and its bodies. -/
theorem candidCond_map {condition : Option Expr} {bodies : List (List Stmt)} {k : Nat}
    {errors : List Diagnostic} {body : List Stmt} {other : Option (List Stmt)}
    (hBodies : ∀ b ∈ bodies, b = body ∨ other = some b) :
    CandidCond condition bodies ⟨condition.map fun c => .cond c body other, k, errors⟩ := by
  constructor
  · intro hNone
    exact Or.inl (Option.map_eq_none_iff.1 hNone)
  · intro v hSome
    obtain ⟨c, -, rfl⟩ := Option.map_eq_some_iff.1 hSome
    rfl
  · intro v hSome
    obtain ⟨c, hCondition, rfl⟩ := Option.map_eq_some_iff.1 hSome
    refine ⟨c, hCondition, ?_⟩
    cases other <;> exact List.subset_append_left _ _
  · intro v hSome b hb
    obtain ⟨c, -, rfl⟩ := Option.map_eq_some_iff.1 hSome
    rcases hBodies b hb with rfl | rfl
    · cases other with
      | none => exact List.subset_append_right _ _
      | some other =>
        exact List.Subset.trans (List.subset_append_left _ _) (List.subset_append_right _ _)
    · exact List.Subset.trans (List.subset_append_right _ _) (List.subset_append_right _ _)

/-- Every way to a result is candid. -/
theorem candid_respected (p : Setting) : candid.Respected p where
  noOperand _ := candid_fail _ _
  opened _ hFirst hRest := hFirst.thenOperators hRest
  stop _ := candidFrom_stay _
  fold _ _ hRight hRest := (candidFrom_combine hRight 0).trans hRest _
  integer _ := (builtOrFault_integer _).candid
  truth _ := (builtOrFault_truth _).candid
  name _ := candid_name _
  unary _ hOperand := hOperand.around (by intro _; rfl)
  group _ hInner := (hInner.closing _ _).moving 1
  cond _ _ hCondition hRest := hCondition.thenBranches hRest _
  condUnopened _ _ := candid_fail _ _
  branches _ _ _ hRest := hRest.afterBody _ _
  branchesUnclosed _ := candidCond_fail rfl (List.cons_ne_nil _ _)
  branchesUnopened _ _ := candidCond_fail rfl (List.cons_ne_nil _ _)
  otherwiseNone _ := candidCond_map (by simp)
  otherwise _ _ _ := candidCond_map (by simp)
  otherwiseUnopened _ _ := candidCond_fail rfl (List.cons_ne_nil _ _)
  block _ _ := trivial
  ends _ := trivial
  next _ _ _ := trivial
  expressionStmt _ _ hExpr := hExpr.around (by intro _; rfl)
  ret _ hExpr := (hExpr.closing _ _).around (by intro _; rfl)
  varDecl _ _ _ hExpr := (hExpr.closing _ _).around (by intro _; rfl)
  varDeclNone _ _ _ := candid_built rfl rfl
  varDeclUnnamed _ _ := candid_fail _ _
  varDeclUnassigned _ _ _ _ := candid_fault rfl (List.cons_ne_nil _ _)

/-! ## Calls at any place -/

theorem candidFrom_fault {left : Option Expr} {s : Step (Option Expr)} (hValue : s.value = none)
    (hErrors : s.errors ≠ []) : CandidFrom left s := by
  have hNot : ∀ v, s.value ≠ some v := by
    intro v hSome
    rw [hValue] at hSome
    cases hSome
  exact ⟨fun _ => Or.inr hErrors, fun v hSome => absurd hSome (hNot v),
    fun v hSome => absurd hSome (hNot v)⟩

section

variable (hp : p.IsStandard)
include hp

theorem candid_expression (ts : List Token) (floor : BindingPower) :
    Candid Expr.hasCond (expression p ts floor) :=
  (Contract.holdsAt (candid_respected p) hp ts).expression floor

theorem candidFrom_operators (ts : List Token) (floor : BindingPower) (left : Option Expr) :
    CandidFrom left (operators p ts floor left) :=
  (Contract.holdsAt (candid_respected p) hp ts).operators floor left

theorem candidCond_branches (ts : List Token) (condition : Option Expr) :
    CandidCond condition [] (branches p ts condition) :=
  (Contract.holdsAt (candid_respected p) hp ts).branches condition

theorem candidCond_otherwise (ts : List Token) (condition : Option Expr) (body : List Stmt) :
    CandidCond condition [body] (otherwise p ts condition body) :=
  (Contract.holdsAt (candid_respected p) hp ts).otherwise condition body

theorem candid_statement (ts : List Token) : Candid Stmt.hasCond (statement p ts) :=
  (Contract.holdsAt (candid_respected p) hp ts).statement

theorem candidFrom_binary (ts : List Token) (left : Option Expr) (floor : BindingPower) :
    CandidFrom left (binary p ts left floor) := by
  by_cases h : ∃ op : BinaryOp, (p.current ts).is op.symbol = true
  · obtain ⟨op, hOp⟩ := h
    obtain ⟨t, rest, rfl, hIs⟩ := hp.exists_cons hOp
    rw [binary_of_is hIs]
    exact candidFrom_combine (candid_expression hp rest floor) _
  · rw [binary_none fun op hOp => h ⟨op, hOp⟩]
    exact candidFrom_fault rfl (List.cons_ne_nil _ _)

theorem candid_operand (ts : List Token) (rule : OperandRule) :
    Candid Expr.hasCond (operand p ts rule) := by
  cases rule with
  | integer =>
    rw [operand]
    exact (builtOrFault_integer _).candid
  | truth =>
    rw [operand]
    exact (builtOrFault_truth _).candid
  | name =>
    rw [operand]
    exact candid_name _
  | unary =>
    by_cases h : ∃ op : UnaryOp, (p.current ts).is op.symbol = true
    · obtain ⟨op, hOp⟩ := h
      obtain ⟨t, rest, rfl, hIs⟩ := hp.exists_cons hOp
      rw [operand_unary hIs]
      exact (candid_expression hp rest .unary).around (by intro _; rfl)
    · rw [operand_unary_none fun op hOp => h ⟨op, hOp⟩]
      exact candid_fail _ _
  | group =>
    rw [operand_group_eq]
    exact ((candid_expression hp _ .lowest).closing _ _).moving 1
  | cond =>
    by_cases hOpen : (p.next ts).is .openParen = true
    · obtain ⟨t, second, rest, rfl, -⟩ := hp.exists_cons_next hOpen
      rw [Setting.next_cons] at hOpen
      rw [operand_cond hOpen]
      exact (candid_expression hp _ .lowest).thenBranches (candidCond_branches hp _ _) _
    · rw [operand_cond_unopened hOpen]
      exact candid_fail _ _

theorem candid_varDecl (ts : List Token) : Candid Stmt.hasCond (varDecl p ts) := by
  by_cases hName : (p.next ts).tokenClass = .identifier
  · by_cases hSemicolon : (p.next (ts.drop 1)).is .semicolon = true
    · obtain ⟨t, word, sign, rest, rfl, hSign⟩ := hp.exists_cons_next_next hSemicolon
      rw [Setting.next_cons, Setting.current_cons] at hName
      rw [varDecl_none hName hSign]
      exact candid_built rfl rfl
    · by_cases hAssignment : (p.next (ts.drop 1)).is .assignment = true
      · obtain ⟨t, word, sign, rest, rfl, hSign⟩ := hp.exists_cons_next_next hAssignment
        rw [Setting.next_cons, Setting.current_cons] at hName
        rw [varDecl_some hName hSign]
        exact ((candid_expression hp rest .lowest).closing _ _).around (by intro _; rfl)
      · rw [varDecl_unassigned hName hSemicolon hAssignment]
        exact candid_fault rfl (List.cons_ne_nil _ _)
  · rw [varDecl_unnamed hName]
    exact candid_fail _ _

theorem candid_ret (ts : List Token) : Candid Stmt.hasCond (ret p ts) := by
  rw [ret_eq]
  exact ((candid_expression hp _ .lowest).closing _ _).around (by intro _; rfl)

theorem candid_expressionStmt (ts : List Token) : Candid Stmt.hasCond (expressionStmt p ts) := by
  rw [expressionStmt_eq]
  exact (candid_expression hp ts .lowest).around (by intro _; rfl)

end

/-! ## Calls within calls -/

/-- The statement lists of all blocks in what a call builds, if it builds anything. -/
def Call.blocks (p : Setting) (ts : List Token) (c : Call) : List (List Stmt) :=
  (c.run p ts).value.elim [] Node.blocks

theorem nestedBlocks_append (a b : List Stmt) :
    nestedBlocks (a ++ b) = nestedBlocks a ++ nestedBlocks b := by
  induction a with
  | nil => rfl
  | cons s rest ih => simp only [List.cons_append, nestedBlocks, ih, List.append_assoc]

namespace Call

variable {us : List Token} {c d : Call}

/-- What a call reports is reported by the function that makes it. -/
theorem Makes.errors (hp : p.IsStandard) (h : Makes p ts c us d) :
    (d.run p us).errors <:+: (c.run p ts).errors := by
  cases h with
  | first h =>
    simp only [run, expression_of_opening hp h]
    exact (List.prefix_append _ _).isInfix
  | furtherOperands h =>
    simp only [run, expression_of_opening hp h]
    exact (List.suffix_append _ _).isInfix
  | fold h hFloor =>
    simp only [run, operators_fold hp h hFloor, binary_of_is h]
    exact (List.prefix_append _ _).isInfix
  | furtherOperators h hFloor =>
    simp only [run, operators_fold hp h hFloor, binary_of_is h]
    rw [Nat.add_comm 1, List.drop_succ_cons]
    exact (List.suffix_append _ _).isInfix
  | right h =>
    simp only [run, binary_of_is h]
    exact List.infix_rfl
  | unary h =>
    simp only [run, operand_unary h]
    exact List.infix_rfl
  | group =>
    simp only [run, operand_group_eq]
    exact closing_errors.isInfix
  | condition h =>
    simp only [run, operand_cond h]
    exact (List.prefix_append _ _).isInfix
  | branches h =>
    simp only [run, operand_cond h]
    exact (List.suffix_append _ _).isInfix
  | body hClose hOpening =>
    simp only [run, branches_cons hClose hOpening]
    exact (List.prefix_append _ _).isInfix
  | otherwise hClose hOpening =>
    simp only [run, branches_cons hClose hOpening]
    exact (List.suffix_append _ _).isInfix
  | other hElse hOpening =>
    simp only [run, otherwise_some hElse hOpening]
    exact List.infix_rfl
  | inside =>
    simp only [run, block_eq]
    exact List.infix_rfl
  | one h =>
    simp only [run, statements_cons h]
    exact (List.prefix_append _ _).isInfix
  | furtherStatements h =>
    simp only [run, statements_cons h]
    exact (List.suffix_append _ _).isInfix
  | varDecl h =>
    obtain ⟨t, rest, rfl, hIs⟩ := hp.exists_cons h
    simp only [run, statement_varDecl hp hIs]
    exact List.infix_rfl
  | ret h =>
    obtain ⟨t, rest, rfl, hIs⟩ := hp.exists_cons h
    simp only [run, statement_ret hp hIs, ret_eq]
    exact List.infix_rfl
  | expressionStmt hVar hReturn =>
    simp only [run, statement_expr hp hVar hReturn]
    exact List.infix_rfl
  | assigned hName hSign =>
    simp only [run, varDecl_some hName hSign]
    exact closing_errors.isInfix
  | returned =>
    simp only [run, ret_eq]
    exact closing_errors.isInfix
  | evaluated =>
    simp only [run, expressionStmt_eq]
    exact List.infix_rfl

/-- A function that is handed everything it needs reports if it builds nothing. -/
theorem reports (hp : p.IsStandard) (hGiven : c.isGiven = true) (h : (c.run p ts).value = none) :
    (c.run p ts).errors ≠ [] := by
  have hOf : ∀ {left : Option Expr} {s : Step (Option Expr)},
      (s.value = none → left = none ∨ s.errors ≠ []) → left.isSome = true →
      (s.build Node.expr).value = none → s.errors ≠ [] := by
    intro left s hReports hLeft hNone
    rcases hReports (Option.map_eq_none_iff.1 hNone) with rfl | hErrors
    · cases hLeft
    · exact hErrors
  cases c with
  | expression floor => exact (candid_expression hp ts floor).reports (Option.map_eq_none_iff.1 h)
  | operators floor left => exact hOf (candidFrom_operators hp ts floor left).reports hGiven h
  | binary left floor => exact hOf (candidFrom_binary hp ts left floor).reports hGiven h
  | operand rule => exact (candid_operand hp ts rule).reports (Option.map_eq_none_iff.1 h)
  | branches condition => exact hOf (candidCond_branches hp ts condition).reports hGiven h
  | otherwise condition body =>
    exact hOf (candidCond_otherwise hp ts condition body).reports hGiven h
  | block => cases h
  | statements inBlock => cases h
  | statement => exact (candid_statement hp ts).reports (Option.map_eq_none_iff.1 h)
  | construct rule =>
    cases rule with
    | varDecl => exact (candid_varDecl hp ts).reports (Option.map_eq_none_iff.1 h)
    | ret => exact (candid_ret hp ts).reports (Option.map_eq_none_iff.1 h)
    | expr => exact (candid_expressionStmt hp ts).reports (Option.map_eq_none_iff.1 h)

/-- A function that builds a tree without conditionals reports nothing. -/
theorem silent (hp : p.IsStandard) {node : Node} (h : (c.run p ts).value = some node)
    (hSingle : node.isSingle = true) (hCond : node.hasCond = false) :
    (c.run p ts).errors = [] := by
  have hExpr : ∀ {s : Step (Option Expr)}, (∀ v, s.value = some v → v.hasCond = false →
      s.errors = []) → (s.build Node.expr).value = some node → s.errors = [] := by
    intro s hSilent hSome
    obtain ⟨v, hValue, rfl⟩ := Option.map_eq_some_iff.1 hSome
    exact hSilent v hValue hCond
  have hStmt : ∀ {s : Step (Option Stmt)}, Candid Stmt.hasCond s →
      (s.build Node.stmt).value = some node → s.errors = [] := by
    intro s hs hSome
    obtain ⟨v, hValue, rfl⟩ := Option.map_eq_some_iff.1 hSome
    exact hs.silent v hValue hCond
  have hCondition : ∀ {condition : Option Expr} {bodies : List (List Stmt)}
      {s : Step (Option Expr)}, CandidCond condition bodies s →
      (s.build Node.expr).value = some node → s.errors = [] := by
    intro condition bodies s hs
    apply hExpr
    intro v hValue hFalse
    have hTrue := hs.hasCond v hValue
    rw [hFalse] at hTrue
    cases hTrue
  cases c with
  | expression floor => exact hExpr (candid_expression hp ts floor).silent h
  | operators floor left => exact hExpr (candidFrom_operators hp ts floor left).silent h
  | binary left floor => exact hExpr (candidFrom_binary hp ts left floor).silent h
  | operand rule => exact hExpr (candid_operand hp ts rule).silent h
  | branches condition => exact hCondition (candidCond_branches hp ts condition) h
  | otherwise condition body => exact hCondition (candidCond_otherwise hp ts condition body) h
  | block =>
    cases h
    cases hSingle
  | statements inBlock =>
    cases h
    cases hSingle
  | statement => exact hStmt (candid_statement hp ts) h
  | construct rule =>
    cases rule with
    | varDecl => exact hStmt (candid_varDecl hp ts) h
    | ret => exact hStmt (candid_ret hp ts) h
    | expr => exact hStmt (candid_expressionStmt hp ts) h

theorem isSome_of_clean (hp : p.IsStandard) (hGiven : c.isGiven = true)
    (hClean : (c.run p ts).errors = []) : (c.run p ts).value.isSome = true := by
  rw [Option.isSome_iff_ne_none]
  intro hNone
  exact reports hp hGiven hNone hClean

theorem Makes.clean (hp : p.IsStandard) (h : Makes p ts c us d)
    (hClean : (c.run p ts).errors = []) : (d.run p us).errors = [] :=
  List.eq_nil_of_infix_nil (hClean ▸ h.errors hp)

/-- A function that reports nothing hands on everything that is needed. -/
theorem Makes.isGiven (hp : p.IsStandard) (h : Makes p ts c us d) (hGiven : c.isGiven = true)
    (hClean : (c.run p ts).errors = []) : d.isGiven = true := by
  have hBuilt : ∀ {vs : List Token} {e : Call} {s : Step (Option Expr)}, Makes p ts c vs e →
      e.isGiven = true → e.run p vs = s.build .expr → s.value.isSome = true := by
    intro vs e s hMakes hGivenTo hRun
    have hSome := isSome_of_clean hp hGivenTo (hMakes.clean hp hClean)
    rw [hRun, Step.value_build, Option.isSome_map] at hSome
    exact hSome
  cases h with
  | furtherOperands h => exact hBuilt (.first h) rfl rfl
  | fold h hFloor => exact hGiven
  | furtherOperators h hFloor => exact hBuilt (.fold h hFloor) hGiven rfl
  | branches h => exact hBuilt (.condition h) rfl rfl
  | otherwise hClose hOpening => exact hGiven
  | _ => rfl

/-- A tree that is built further holds the blocks of what it is built from. -/
theorem blocks_of_keeps {left : Option Expr} {value : Option Expr} {whole part : Node}
    (h : ∀ v, value = some v → ∃ l, left = some l ∧ l.blocks ⊆ v.blocks)
    (hWhole : value.map Node.expr = some whole) (hPart : left.map Node.expr = some part) :
    part.blocks ⊆ whole.blocks := by
  obtain ⟨v, hValue, rfl⟩ := Option.map_eq_some_iff.1 hWhole
  obtain ⟨l, hLeft, hBlocks⟩ := h v hValue
  rw [hLeft] at hPart
  cases hPart
  exact hBlocks

/-- The operators behind a tree leave its blocks as they are. -/
theorem blocks_of_operators (hp : p.IsStandard) {floor : BindingPower} {left : Option Expr}
    {whole part : Node} (hWhole : (Parse.operators p ts floor left).value.map Node.expr = some whole)
    (hPart : left.map Node.expr = some part) : part.blocks ⊆ whole.blocks := by
  refine blocks_of_keeps ?_ hWhole hPart
  intro v hValue
  obtain ⟨l, hLeft, hKept⟩ := (candidFrom_operators hp ts floor left).keeps v hValue
  exact ⟨l, hLeft, hKept.blocks⟩

theorem subset_of_eq {value : Option Node} {whole part : Node} (hWhole : value = some whole)
    (hPart : value = some part) : part.blocks ⊆ whole.blocks := by
  rw [hWhole] at hPart
  cases hPart
  exact List.Subset.refl _

/-- A tree built around another, once that is ended, holds its blocks. -/
theorem blocks_of_around {α β : Type} {inner ended : Option α} {whole part : Node} {f : α → Node}
    {g : α → β} {k : β → Node} (hEnded : ∀ v, ended = some v → inner = some v)
    (h : ∀ v, (f v).blocks ⊆ (k (g v)).blocks) (hWhole : (ended.map g).map k = some whole)
    (hPart : inner.map f = some part) : part.blocks ⊆ whole.blocks := by
  obtain ⟨u, hMap, rfl⟩ := Option.map_eq_some_iff.1 hWhole
  obtain ⟨v, hValue, rfl⟩ := Option.map_eq_some_iff.1 hMap
  rw [hEnded v hValue] at hPart
  cases hPart
  exact h v

/-- What a function builds holds the blocks of whatever its calls build. -/
theorem Makes.blocks (hp : p.IsStandard) (h : Makes p ts c us d) {whole part : Node}
    (hWhole : (c.run p ts).value = some whole) (hPart : (d.run p us).value = some part) :
    part.blocks ⊆ whole.blocks := by
  cases h with
  | first h =>
    rw [run, expression_of_opening hp h] at hWhole
    exact blocks_of_operators hp hWhole hPart
  | furtherOperands h =>
    rw [run, expression_of_opening hp h] at hWhole
    exact subset_of_eq hWhole hPart
  | fold h hFloor =>
    rw [run, operators_fold hp h hFloor] at hWhole
    rw [run, binary_of_is h] at hPart
    exact blocks_of_operators hp hWhole hPart
  | furtherOperators h hFloor =>
    rw [run, operators_fold hp h hFloor] at hWhole
    rw [binary_of_is h, Nat.add_comm 1, List.drop_succ_cons] at hPart
    exact subset_of_eq hWhole hPart
  | right h =>
    rw [run, binary_of_is h] at hWhole
    refine blocks_of_keeps ?_ hWhole hPart
    intro v hValue
    obtain ⟨l, r, -, hRight, rfl⟩ := combine_eq_some_iff.1 hValue
    exact ⟨r, hRight, List.subset_append_right _ _⟩
  | unary h =>
    rw [run, operand_unary h] at hWhole
    refine blocks_of_around (fun _ => id) ?_ hWhole hPart
    exact fun v => List.Subset.refl _
  | group =>
    rw [run, operand_group_eq] at hWhole
    obtain ⟨v, hValue, rfl⟩ := Option.map_eq_some_iff.1 hWhole
    rw [run, Step.value_build, value_of_closing hValue] at hPart
    cases hPart
    exact List.Subset.refl _
  | condition h =>
    rw [run, operand_cond h] at hWhole
    exact blocks_of_keeps (candidCond_branches hp _ _).keeps hWhole hPart
  | branches h =>
    rw [run, operand_cond h] at hWhole
    exact subset_of_eq hWhole hPart
  | body hClose hOpening =>
    rw [run, branches_cons hClose hOpening] at hWhole
    obtain ⟨v, hValue, rfl⟩ := Option.map_eq_some_iff.1 hWhole
    cases hPart
    exact (candidCond_otherwise hp _ _ _).keepsBodies v hValue _ (List.mem_singleton.2 rfl)
  | otherwise hClose hOpening =>
    rw [run, branches_cons hClose hOpening] at hWhole
    exact subset_of_eq hWhole hPart
  | other hElse hOpening =>
    rw [run, otherwise_some hElse hOpening] at hWhole
    obtain ⟨v, hValue, rfl⟩ := Option.map_eq_some_iff.1 hWhole
    obtain ⟨e, -, rfl⟩ := Option.map_eq_some_iff.1 hValue
    cases hPart
    exact List.Subset.trans (List.subset_append_right _ _) (List.subset_append_right _ _)
  | inside =>
    rw [run, block_eq] at hWhole
    cases hWhole
    cases hPart
    exact List.subset_cons_self _ _
  | one h =>
    rw [run, statements_cons h] at hWhole
    obtain ⟨v, hValue, rfl⟩ := Option.map_eq_some_iff.1 hPart
    cases hWhole
    simp only [hValue, Option.toList_some, Node.blocks, List.singleton_append, nestedBlocks]
    exact List.subset_append_left _ _
  | furtherStatements h =>
    rw [run, statements_cons h] at hWhole
    cases hWhole
    cases hPart
    simp only [Node.blocks, nestedBlocks_append]
    exact List.subset_append_right _ _
  | varDecl h =>
    obtain ⟨t, rest, rfl, hIs⟩ := hp.exists_cons h
    rw [run, statement_varDecl hp hIs] at hWhole
    exact subset_of_eq hWhole hPart
  | ret h =>
    obtain ⟨t, rest, rfl, hIs⟩ := hp.exists_cons h
    rw [run, statement_ret hp hIs] at hWhole
    rw [run, ret_eq] at hPart
    exact subset_of_eq hWhole hPart
  | expressionStmt hVar hReturn =>
    rw [run, statement_expr hp hVar hReturn] at hWhole
    exact subset_of_eq hWhole hPart
  | assigned hName hSign =>
    rw [run, varDecl_some hName hSign] at hWhole
    refine blocks_of_around (fun _ => value_of_closing) ?_ hWhole hPart
    exact fun v => List.Subset.refl _
  | returned =>
    rw [run, ret_eq] at hWhole
    refine blocks_of_around (fun _ => value_of_closing) ?_ hWhole hPart
    exact fun v => List.Subset.refl _
  | evaluated =>
    rw [run, expressionStmt_eq] at hWhole
    refine blocks_of_around (fun _ => id) ?_ hWhole hPart
    exact fun v => List.Subset.refl _

/-- Whatever a function comes to that reports nothing reports nothing either, and is kept. -/
theorem Reaches.clean (hp : p.IsStandard) (h : Reaches p ts c us d) (hGiven : c.isGiven = true)
    (hClean : (c.run p ts).errors = []) {whole : Node} (hWhole : (c.run p ts).value = some whole) :
    (d.run p us).errors = [] ∧
      ∀ part, (d.run p us).value = some part → part.blocks ⊆ whole.blocks := by
  induction h generalizing whole with
  | self =>
    refine ⟨hClean, ?_⟩
    intro part hPart
    exact subset_of_eq hWhole hPart
  | step hMakes _ ih =>
    have hGivenTo := hMakes.isGiven hp hGiven hClean
    have hCleanTo := hMakes.clean hp hClean
    obtain ⟨middle, hMiddle⟩ := Option.isSome_iff_exists.1 (isSome_of_clean hp hGivenTo hCleanTo)
    obtain ⟨hErrors, hBlocks⟩ := ih hGivenTo hCleanTo hMiddle
    refine ⟨hErrors, ?_⟩
    intro part hPart
    exact List.Subset.trans (hBlocks part hPart) (hMakes.blocks hp hWhole hMiddle)

end Call

/-! ## Statements that are kept -/

theorem attempts_of_ends {inBlock : Bool} (h : Ends inBlock ts) : attempts p ts inBlock = [] := by
  cases ts with
  | nil => rw [attempts]
  | cons t rest =>
    rw [attempts, if_pos]
    exact h t rfl

theorem attempts_cons {inBlock : Bool} (h : ¬ Ends inBlock (t :: rest)) :
    attempts p (t :: rest) inBlock = (statement p (t :: rest)).value ::
      attempts p (rest.drop (statement p (t :: rest)).moved) inBlock := by
  rw [attempts, if_neg]
  intro hEnd
  apply h
  intro t' ht'
  cases ht'
  exact hEnd

/-- If nothing is reported, no statement fails on the way to the end. -/
theorem attempts_of_clean (hp : p.IsStandard) {inBlock : Bool}
    (hClean : (statements p ts inBlock).errors = []) :
    attempts p ts inBlock = (statements p ts inBlock).value.map some := by
  induction hLength : ts.length using Nat.strongRecOn generalizing ts with
  | ind n ih =>
    by_cases hEnds : Ends inBlock ts
    · rw [attempts_of_ends hEnds, statements_of_ends hEnds]
      rfl
    · cases ts with
      | nil => exact absurd (fun t ht => nomatch ht) hEnds
      | cons t rest =>
        rw [statements_cons hEnds] at hClean ⊢
        obtain ⟨hCleanOne, hCleanOthers⟩ := List.append_eq_nil_iff.1 hClean
        have hShorter : (rest.drop (statement p (t :: rest)).moved).length < n := by
          rw [← hLength, List.length_drop, List.length_cons]
          omega
        have hOne : ∃ one, (statement p (t :: rest)).value = some one := by
          rw [← Option.ne_none_iff_exists']
          intro hNone
          exact (candid_statement hp _).reports hNone hCleanOne
        obtain ⟨one, hOne⟩ := hOne
        rw [attempts_cons hEnds, ih _ hShorter hCleanOthers rfl, hOne]
        rfl

/-- Whatever is called in a parse led by hand: what was reported stays, nothing but the place and
the reports changes, and the place only moves on. Who builds nothing has reported something, unless
it was handed nothing to go on from; and who builds an expression or a statement without
conditionals has reported nothing.

So a program without errors has lost no statement: each that began at its top is one of its
statements, and each that began in a block is one of that block's, which is part of the program. -/
theorem candid_calls :
    (∀ (s : Session) (c : Call), s.setting.IsStandard →
      s.errors <+: (s.call c).errors ∧ (s.call c).setting = s.setting ∧
        (s.call c).rest <:+ s.rest ∧
        ((c.run s.setting s.rest).value = none → c.isGiven = true →
          s.errors.length < (s.call c).errors.length) ∧
        ∀ node, (c.run s.setting s.rest).value = some node → node.isSingle = true →
          node.hasCond = false → (s.call c).errors = s.errors) ∧
    ∀ tokens, (Program.parse tokens).errors = [] →
      attempts (.ofTokens tokens) tokens false = (Program.parse tokens).statements.map some ∧
        ∀ us, Call.Reaches (.ofTokens tokens) tokens (.statements false) us .block →
          (block (.ofTokens tokens) us).value ∈ nestedBlocks (Program.parse tokens).statements ∧
          attempts (.ofTokens tokens) (us.drop 1) true =
            (block (.ofTokens tokens) us).value.map some := by
  constructor
  · intro s c hp
    refine ⟨List.prefix_append _ _, rfl, List.drop_suffix _ _, ?_, ?_⟩
    · intro hNone hGiven
      have hReported := Call.reports hp hGiven hNone
      have hLength := List.length_pos_iff.2 hReported
      show s.errors.length < (s.errors ++ (c.run s.setting s.rest).errors).length
      rw [List.length_append]
      omega
    · intro node hSome hSingle hCond
      show s.errors ++ (c.run s.setting s.rest).errors = s.errors
      rw [Call.silent hp hSome hSingle hCond, List.append_nil]
  · intro tokens hClean
    have hp := isStandard_ofTokens tokens
    refine ⟨attempts_of_clean hp hClean, ?_⟩
    intro us hReaches
    obtain ⟨hErrors, hBlocks⟩ := hReaches.clean hp rfl hClean rfl
    have hInside : (block (.ofTokens tokens) us).value =
        (statements (.ofTokens tokens) (us.drop 1) true).value := by
      rw [block_eq]
      rfl
    refine ⟨hBlocks _ rfl List.mem_cons_self, ?_⟩
    rw [hInside]
    apply attempts_of_clean hp
    have hSame : (block (.ofTokens tokens) us).errors =
        (statements (.ofTokens tokens) (us.drop 1) true).errors := by
      rw [block_eq]
      rfl
    rw [← hSame]
    exact hErrors

/-- A return that is not ended, in front of a conditional. -/
def unended : Session :=
  Session.start .standard (Reading.default.tokens "return a if (b) {}")

/-- Statements in a block in the condition of a conditional. -/
def nested : List Token :=
  Reading.default.tokens "if (if (a) {b; c} else {}) {var d;}"

theorem candid_calls_unended_nested :
    (unended.setting.IsStandard ∧ (statement unended.setting unended.rest).value.isNone = true ∧
      unended.errors.length < (unended.call .statement).errors.length) ∧
    (Program.parse nested).errors = [] ∧
      attempts (.ofTokens nested) nested false = (Program.parse nested).statements.map some :=
  have hUnended : unended.setting.IsStandard := ⟨rfl, by decide +kernel⟩
  have hNone : (statement unended.setting unended.rest).value.isNone = true := by decide +kernel
  have hNested : (Program.parse nested).errors = [] := by decide +kernel
  have hFailed : (Call.statement.run unended.setting unended.rest).value = none :=
    Option.map_eq_none_iff.2 (Option.isNone_iff_eq_none.1 hNone)
  ⟨⟨hUnended, hNone, (candid_calls.1 unended .statement hUnended).2.2.2.1 hFailed rfl⟩, hNested,
    (candid_calls.2 nested hNested).1⟩

end Parse
end Frontend
