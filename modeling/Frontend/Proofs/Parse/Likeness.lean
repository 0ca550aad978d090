import Mathlib.Data.List.Forall2
import Frontend.Proofs.Parse.Contract

/-!
# Two parses side by side

Two token lists may be alike in a way that the parser does not see through: the same text further
down in a source, or the same tokens with other names. A likeness says which tokens are taken for
alike, which reports, and which trees. If its laws hold, everything that the parser does on one list
it does on the other.

A function that moves over some tokens has seen these, the one that it ends on, and one more. So the
lists need only be alike as far as that.

* `Likeness`: relations that each way to build or to report something respects.
* `Likeness.Streams`, `Likeness.Steps`: alike as far as a parse sees, and alike in what comes of it.
* `Likeness.holdsAt`: parsing functions take alike tokens to alike steps.
-/

namespace Frontend

/-- The same fault about another token. -/
def Fault.about : Fault → String → Fault
  | .unexpectedToken _, token => .unexpectedToken token
  | .expectedName _, token => .expectedName token
  | .expectedAssignment _, token => .expectedAssignment token
  | .missingSemicolon context _, token => .missingSemicolon context token
  | .missingOpeningParen context _, token => .missingOpeningParen context token
  | .missingClosingParen context _, token => .missingClosingParen context token
  | .missingOpeningCurly context _, token => .missingOpeningCurly context token
  | .noOperand _, token => .noOperand token
  | .notInteger _, token => .notInteger token
  | .notTruth _, token => .notTruth token
  | .notEvaluable _, token => .notEvaluable token

namespace Parse

/-- Reports of two parses that correspond to one another, apart from those that do not count. -/
def ReportsAlike (report : Diagnostic → Diagnostic → Prop) (counts : Fault → Bool)
    (errors errors' : List Diagnostic) : Prop :=
  List.Forall₂ report (errors.filter fun d => counts d.fault)
    (errors'.filter fun d => counts d.fault)

/-- Steps of two parses that go equally far. -/
structure StepsAlike {α : Type} (report : Diagnostic → Diagnostic → Prop) (counts : Fault → Bool)
    (value : α → α → Prop) (s s' : Step α) : Prop where
  value : value s.value s'.value
  moved : s.moved = s'.moved
  errors : ReportsAlike report counts s.errors s'.errors

/-- Which tokens, reports and trees of two parses are taken for alike. Trees are alike if they are
built in the same way from alike parts, and a tree that is missing is like one that is missing. -/
structure Likeness where
  token : Token → Token → Prop
  report : Diagnostic → Diagnostic → Prop
  /-- The faults that are compared at all. -/
  counts : Fault → Bool
  expr : Option Expr → Option Expr → Prop
  stmt : Option Stmt → Option Stmt → Prop
  body : List Stmt → List Stmt → Prop
  key : ∀ {t t'}, token t t' → t.key = t'.key
  counts_about : ∀ f s, counts (f.about s) = counts f
  fault : ∀ {t t'}, token t t' → ∀ f : Fault,
    report (faultAt t (f.about t.describe)) (faultAt t' (f.about t'.describe))
  integer : ∀ {t t'}, token t t' → t.tokenClass = .number →
    StepsAlike report counts expr (integer t) (integer t')
  truth : ∀ {t t'}, token t t' → t.tokenClass = .boolean →
    StepsAlike report counts expr (truth t) (truth t')
  name : ∀ {t t'}, token t t' → t.tokenClass = .identifier →
    StepsAlike report counts expr (name t) (name t')
  exprNone : expr none none
  unary : ∀ {v v'} op, expr v v' → expr (v.map (.unary op)) (v'.map (.unary op))
  binary : ∀ {l l' r r'} op, expr l l' → expr r r' → expr (combine op l r) (combine op l' r')
  cond : ∀ {c c' b b'}, expr c c' → body b b' →
    expr (c.map fun c => .cond c b none) (c'.map fun c => .cond c b' none)
  condElse : ∀ {c c' b b' d d'}, expr c c' → body b b' → body d d' →
    expr (c.map fun c => .cond c b (some d)) (c'.map fun c => .cond c b' (some d'))
  stmtNone : stmt none none
  exprStmt : ∀ {v v'}, expr v v' → stmt (v.map .expr) (v'.map .expr)
  ret : ∀ {v v'}, expr v v' → stmt (v.map .ret) (v'.map .ret)
  varDecl : ∀ {t t' v v'}, token t t' → t.tokenClass = .identifier → expr v v' →
    stmt (v.map fun e => .varDecl t.lexeme (some e)) (v'.map fun e => .varDecl t'.lexeme (some e))
  declaration : ∀ {t t'}, token t t' → t.tokenClass = .identifier →
    stmt (some (.varDecl t.lexeme none)) (some (.varDecl t'.lexeme none))
  bodyNil : body [] []
  bodyCons : ∀ {s s' b b'}, stmt s s' → body b b' → body (s.toList ++ b) (s'.toList ++ b')

namespace Likeness

variable (L : Likeness) (p q : Setting)

/-- What is seen at the first `n` places is alike, behind the ends of the lists too. -/
def Streams (n : Nat) (ts ts' : List Token) : Prop :=
  ∀ i < n, L.token (p.current (ts.drop i)) (q.current (ts'.drop i))

/-- Steps of two parses that come to alike trees and alike reports, equally far on. -/
abbrev Steps {α : Type} (value : α → α → Prop) (s s' : Step α) : Prop :=
  StepsAlike L.report L.counts value s s'

/-- The reports are alike. -/
abbrev Reports (errors errors' : List Diagnostic) : Prop :=
  ReportsAlike L.report L.counts errors errors'

variable {L p q} {n : Nat} {t t' : Token} {ts ts' rest rest' : List Token} {floor : BindingPower}

/-! ## Streams -/

theorem Streams.mono {m : Nat} (h : L.Streams p q n ts ts') (hm : m ≤ n) :
    L.Streams p q m ts ts' :=
  fun i hi => h i (Nat.lt_of_lt_of_le hi hm)

theorem Streams.drop {k k' m : Nat} (h : L.Streams p q n ts ts') (hk : k = k') (hm : k + m ≤ n) :
    L.Streams p q m (ts.drop k) (ts'.drop k') := by
  subst hk
  intro i hi
  rw [List.drop_drop, List.drop_drop]
  exact h (k + i) (by omega)

theorem Streams.current (h : L.Streams p q n ts ts') (hn : 0 < n) :
    L.token (p.current ts) (q.current ts') :=
  h 0 hn

theorem Streams.next (h : L.Streams p q n ts ts') (hn : 1 < n) :
    L.token (p.next ts) (q.next ts') :=
  h 1 hn

theorem Streams.current_is (h : L.Streams p q n ts ts') (hn : 0 < n) (s : Symbol) :
    (p.current ts).is s = (q.current ts').is s :=
  is_of_key (L.key (h.current hn)) s

theorem Streams.next_is (h : L.Streams p q n ts ts') (hn : 1 < n) (s : Symbol) :
    (p.next ts).is s = (q.next ts').is s :=
  is_of_key (L.key (h.next hn)) s

theorem Streams.tail (h : L.Streams p q (n + 1) (t :: rest) (t' :: rest')) :
    L.Streams p q n rest rest' := by
  intro i hi
  exact h (i + 1) (by omega)

theorem Streams.cons (hq : q.IsStandard) (h : L.Streams p q (n + 1) (t :: rest) ts')
    (hEnd : ¬ t.isEnd = true) :
    ∃ t' rest', ts' = t' :: rest' ∧ L.token t t' ∧ L.Streams p q n rest rest' := by
  have hToken := h.current (Nat.succ_pos n)
  cases ts' with
  | nil =>
    have hSame := isEnd_of_key (L.key hToken)
    rw [Setting.current_cons, Setting.current_nil, hq.endMark] at hSame
    exact absurd hSame hEnd
  | cons t' rest' => exact ⟨t', rest', rfl, hToken, h.tail⟩

/-- In front of a symbol the other list has the same symbol. -/
theorem Streams.cons_of_is (hq : q.IsStandard) (h : L.Streams p q (n + 1) (t :: rest) ts')
    {s : Symbol} (hIs : t.is s = true) :
    ∃ t' rest', ts' = t' :: rest' ∧ t'.is s = true ∧ L.token t t' ∧ L.Streams p q n rest rest' := by
  obtain ⟨t', rest', rfl, hToken, hRest⟩ :=
    h.cons hq fun hEnd => Token.not_is_of_isEnd hEnd s hIs
  exact ⟨t', rest', rfl, is_of_key (L.key hToken) s ▸ hIs, hToken, hRest⟩

/-- In front of a symbol in the second place the other list has the same symbol there. -/
theorem Streams.cons_cons_of_is (hq : q.IsStandard) {head : Token}
    (h : L.Streams p q (n + 2) (head :: t :: rest) ts') {s : Symbol} (hIs : t.is s = true) :
    ∃ head' t' rest', ts' = head' :: t' :: rest' ∧ L.token head head' ∧ t'.is s = true ∧
      L.Streams p q n rest rest' := by
  have hTail : L.Streams p q (n + 1) (t :: rest) (ts'.drop 1) := h.drop (k := 1) rfl (by omega)
  obtain ⟨t', rest', hDrop, hIs', -, hBehind⟩ := hTail.cons_of_is hq hIs
  cases ts' with
  | nil => cases hDrop
  | cons head' tail' =>
    rw [List.drop_succ_cons, List.drop_zero] at hDrop
    subst hDrop
    exact ⟨head', t', rest', rfl, h.current (by omega), hIs', hBehind⟩

/-- In front of a symbol in the third place the other list has the same symbol there. -/
theorem Streams.cons_cons_cons_of_is (hq : q.IsStandard) {head second : Token}
    (h : L.Streams p q (n + 3) (head :: second :: t :: rest) ts') {s : Symbol}
    (hIs : t.is s = true) :
    ∃ head' second' t' rest', ts' = head' :: second' :: t' :: rest' ∧ L.token second second' ∧
      t'.is s = true ∧ L.Streams p q n rest rest' := by
  have hTail : L.Streams p q (n + 2) (second :: t :: rest) (ts'.drop 1) :=
    h.drop (k := 1) rfl (by omega)
  obtain ⟨second', t', rest', hDrop, hSecond, hIs', hBehind⟩ := hTail.cons_cons_of_is hq hIs
  cases ts' with
  | nil => cases hDrop
  | cons head' tail' =>
    rw [List.drop_succ_cons, List.drop_zero] at hDrop
    subst hDrop
    exact ⟨head', second', t', rest', rfl, hSecond, hIs', hBehind⟩

theorem ends_iff (hp : p.IsStandard) {inBlock : Bool} :
    Ends inBlock ts ↔ (p.current ts).isEnd = true ∨
      inBlock = true ∧ (p.current ts).is .closeCurly = true := by
  cases ts with
  | nil => exact ⟨fun _ => Or.inl hp.endMark, fun _ t ht => nomatch ht⟩
  | cons t rest => exact ⟨fun h => h t rfl, fun h t' ht' => by cases ht'; exact h⟩

theorem Streams.ends (hp : p.IsStandard) (hq : q.IsStandard) (h : L.Streams p q n ts ts')
    (hn : 0 < n) {inBlock : Bool} : Ends inBlock ts ↔ Ends inBlock ts' := by
  rw [ends_iff hp, ends_iff hq, h.current_is hn, isEnd_of_key (L.key (h.current hn))]

/-! ## Steps -/

theorem Reports.nil : L.Reports [] [] :=
  List.Forall₂.nil

theorem Reports.append {a a' b b' : List Diagnostic} (ha : L.Reports a a') (hb : L.Reports b b') :
    L.Reports (a ++ b) (a' ++ b') := by
  show List.Forall₂ _ _ _
  rw [List.filter_append, List.filter_append]
  exact List.rel_append ha hb

theorem Reports.fault (h : L.token t t') (f : Fault) :
    L.Reports [faultAt t (f.about t.describe)] [faultAt t' (f.about t'.describe)] := by
  show List.Forall₂ _ _ _
  have hSame : ∀ u : Token, L.counts (faultAt u (f.about u.describe)).fault = L.counts f :=
    fun u => L.counts_about f u.describe
  cases hCounts : L.counts f with
  | false => simp only [List.filter_cons, List.filter_nil, hSame, hCounts, Bool.false_eq_true,
      if_false, List.Forall₂.nil]
  | true =>
    simp only [List.filter_cons, List.filter_nil, hSame, hCounts, if_true]
    exact .cons (L.fault h f) .nil

section

variable {α β : Type} {value : α → α → Prop} {s s' : Step α}

theorem Steps.after (hs : L.Steps value s s') {k k' : Nat} {errors errors' : List Diagnostic}
    (hk : k = k') (hErrors : L.Reports errors errors') :
    L.Steps value (s.after k errors) (s'.after k' errors') :=
  ⟨hs.value, by rw [Step.moved_after, Step.moved_after, hk, hs.moved],
    Reports.append hErrors hs.errors⟩

theorem Steps.moving (hs : L.Steps value s s') (k : Nat) :
    L.Steps value (s.after k []) (s'.after k []) :=
  Steps.after hs rfl Reports.nil

theorem Steps.around {inner : Option α → Option α → Prop} {outer : Option β → Option β → Prop}
    {s s' : Step (Option α)} (hs : L.Steps inner s s') {f f' : α → β}
    (h : ∀ {v v'}, inner v v' → outer (v.map f) (v'.map f')) :
    L.Steps outer (s.build f) (s'.build f') :=
  ⟨h hs.value, hs.moved, hs.errors⟩

theorem Steps.fail {value : Option α → Option α → Prop} (hNone : value none none)
    (h : L.token t t') (f : Fault) :
    L.Steps value (fail t (f.about t.describe)) (fail t' (f.about t'.describe)) :=
  ⟨hNone, rfl, Reports.fault h f⟩

theorem Steps.closing {value : Option α → Option α → Prop} {part part' : Step (Option α)}
    (hPart : L.Steps value part part') (hNone : value none none)
    (h : L.Streams p q (part.moved + 2) ts ts') (s : Symbol) (f : Fault) :
    L.Steps value (closing p s f.about ts part) (closing q s f.about ts' part') := by
  have hBehind : L.Streams p q 2 (ts.drop part.moved) (ts'.drop part'.moved) :=
    h.drop hPart.moved (by omega)
  have hNext := hBehind.next_is (by omega) s
  by_cases hIs : (p.next (ts.drop part.moved)).is s = true
  · have hIs' : (q.next (ts'.drop part'.moved)).is s = true := hNext ▸ hIs
    rw [closing_found hIs, closing_found hIs']
    exact ⟨hPart.value, congrArg (· + 1) hPart.moved, hPart.errors⟩
  · have hIs' : ¬ (q.next (ts'.drop part'.moved)).is s = true := hNext ▸ hIs
    rw [closing_missing hIs, closing_missing hIs']
    exact ⟨hNone, hPart.moved,
      Reports.append hPart.errors (Reports.fault (hBehind.next (by omega)) f)⟩

end

/-! ## The contract -/

/-- What a parsing function of one parse has in common with the same function of another, if the
lists are alike as far as the first parse sees. Statements see nothing behind the token that they
end before. -/
def contract (L : Likeness) (p q : Setting) : Contract where
  expression ts floor s := ∀ ts', L.Streams p q (s.moved + 2) ts ts' →
    L.Steps L.expr s (Parse.expression q ts' floor)
  operators ts floor left s := ∀ ts' left', L.Streams p q (s.moved + 2) ts ts' →
    L.expr left left' → L.Steps L.expr s (Parse.operators q ts' floor left')
  operand ts s := ∀ ts' rule, L.Streams p q (s.moved + 2) ts ts' → Opening (p.current ts) rule →
    L.Steps L.expr s (Parse.operand q ts' rule)
  branches ts condition s := ∀ ts' condition', L.Streams p q (s.moved + 2) ts ts' →
    L.expr condition condition' → L.Steps L.expr s (Parse.branches q ts' condition')
  otherwise ts condition body s := ∀ ts' condition' body', L.Streams p q (s.moved + 2) ts ts' →
    L.expr condition condition' → L.body body body' →
    L.Steps L.expr s (Parse.otherwise q ts' condition' body')
  block ts s := ∀ ts', L.Streams p q (s.moved + 1) ts ts' → L.Steps L.body s (Parse.block q ts')
  statements ts inBlock s := ∀ ts', L.Streams p q (s.moved + 1) ts ts' →
    L.Steps L.body s (Parse.statements q ts' inBlock)
  statement ts s := ∀ ts', L.Streams p q (s.moved + 2) ts ts' →
    L.Steps L.stmt s (Parse.statement q ts')

/-! ### Expressions -/

theorem steps_binary {op : BinaryOp} {left left' : Option Expr} {right : Step (Option Expr)}
    (hIs : t'.is op.symbol = true) (hLeft : L.expr left left')
    (hRight : L.Steps L.expr right (Parse.expression q rest' floor)) :
    L.Steps L.expr ⟨combine op left right.value, 1 + right.moved, right.errors⟩
      (Parse.binary q (t' :: rest') left' floor) := by
  rw [binary_of_is hIs]
  exact ⟨L.binary op hLeft hRight.value, congrArg (1 + ·) hRight.moved, hRight.errors⟩

section

variable (hq : q.IsStandard)
include hq

theorem expression_opened {rule : OperandRule} {first s : Step (Option Expr)}
    (hOpening : Opening t rule) (hFirst : (L.contract p q).operand (t :: rest) first)
    (hRest : (L.contract p q).operators ((t :: rest).drop first.moved) floor first.value s) :
    (L.contract p q).expression (t :: rest) floor (s.after first.moved first.errors) := by
  intro ts' h
  rw [Step.moved_after] at h
  obtain ⟨t', rest', rfl, hToken, -⟩ := h.cons hq hOpening.not_isEnd
  have hFirst' := hFirst _ rule (h.mono (by omega)) hOpening
  have hBehind : L.Streams p q (s.moved + 2) ((t :: rest).drop first.moved) _ :=
    h.drop hFirst'.moved (by omega)
  rw [expression_of_opening hq (opening_of_key (L.key hToken) hOpening)]
  exact (hRest _ _ hBehind hFirst'.value).after hFirst'.moved hFirst'.errors

theorem expression_noOperand (hNone : ∀ rule, ¬ Opening (p.current ts) rule) :
    (L.contract p q).expression ts floor
      (fail (p.current ts) (.noOperand (p.current ts).describe)) := by
  intro ts' h
  have hCurrent := h.current (Nat.succ_pos _)
  have hNone' : ∀ rule, ¬ Opening (q.current ts') rule := by
    intro rule hOpening
    exact hNone rule (opening_of_key (L.key hCurrent).symm hOpening)
  rw [expression_of_noOperand hq hNone']
  exact Steps.fail L.exprNone hCurrent (.noOperand "")

theorem operators_stopped {left : Option Expr} (hp : p.IsStandard)
    (hStop : ¬ floor < p.grammar.power (p.next ts)) :
    (L.contract p q).operators ts floor left (.stay left) := by
  intro ts' left' h hLeft
  have hNext := h.next (by rw [Step.moved_stay]; omega)
  have hPower : p.grammar.power (p.next ts) = q.grammar.power (q.next ts') := by
    unfold Grammar.power
    rw [hp.grammar, hq.grammar, L.key hNext]
  rw [hPower] at hStop
  rw [operators_stop hStop]
  exact ⟨hLeft, rfl, Reports.nil⟩

theorem operators_folded {head : Token} {op : BinaryOp} {left : Option Expr}
    {right s : Step (Option Expr)} (hIs : t.is op.symbol = true) (hFloor : floor < op.power)
    (hRight : (L.contract p q).expression rest op.power right)
    (hRest : (L.contract p q).operators (rest.drop right.moved) floor
      (combine op left right.value) s) :
    (L.contract p q).operators (head :: t :: rest) floor left
      (s.after (2 + right.moved) right.errors) := by
  intro ts' left' h hLeft
  have hSeen : L.Streams p q (right.moved + s.moved + 2 + 2) (head :: t :: rest) ts' :=
    h.mono (by rw [Step.moved_after]; omega)
  obtain ⟨head', t', rest', rfl, -, hIs', hBehind⟩ := hSeen.cons_cons_of_is hq hIs
  have hRight' := hRight _ (hBehind.mono (by omega))
  have hFurther : L.Streams p q (s.moved + 2) (rest.drop right.moved) _ :=
    hBehind.drop hRight'.moved (by omega)
  rw [operators_fold hq hIs' hFloor]
  exact (hRest _ _ hFurther (L.binary op hLeft hRight'.value)).after
    (congrArg (2 + ·) hRight'.moved) hRight'.errors

end

/-! ### Operands -/

theorem steps_unary {op : UnaryOp} {s : Step (Option Expr)} (hIs : t'.is op.symbol = true)
    (hs : L.Steps L.expr s (Parse.expression q rest' .unary)) :
    L.Steps L.expr ((s.build (.unary op)).after 1 []) (Parse.operand q (t' :: rest') .unary) := by
  rw [operand_unary hIs]
  exact (Steps.around hs fun h => L.unary op h).moving 1

theorem steps_group (ts ts' : List Token) {s : Step (Option Expr)}
    (h : L.Streams p q (s.moved + 2) (ts.drop 1) (ts'.drop 1))
    (hs : L.Steps L.expr s (Parse.expression q (ts'.drop 1) .lowest)) :
    L.Steps L.expr
      ((closing p .closeParen (.missingClosingParen "grouped expression") (ts.drop 1) s).after 1 [])
      (Parse.operand q ts' .group) := by
  rw [operand_group_eq]
  have hClosed := Steps.closing hs L.exprNone h .closeParen
    (.missingClosingParen "grouped expression" "")
  exact hClosed.moving 1

theorem steps_cond {condition s : Step (Option Expr)}
    (h : L.Streams p q (condition.moved + s.moved + 2) rest rest')
    (hOpen : (p.current rest).is .openParen = true)
    (hCondition : (L.contract p q).expression rest .lowest condition)
    (hRest : (L.contract p q).branches (rest.drop condition.moved) condition.value s) :
    L.Steps L.expr (s.after (1 + condition.moved) condition.errors)
      (Parse.operand q (t' :: rest') .cond) := by
  have hOpen' : (q.current rest').is .openParen = true :=
    h.current_is (Nat.succ_pos _) .openParen ▸ hOpen
  have hCondition' := hCondition _ (h.mono (by omega))
  have hBehind : L.Streams p q (s.moved + 2) (rest.drop condition.moved) _ :=
    h.drop hCondition'.moved (by omega)
  rw [operand_cond hOpen']
  exact (hRest _ _ hBehind hCondition'.value).after (congrArg (1 + ·) hCondition'.moved)
    hCondition'.errors

theorem steps_condUnopened (h : L.Streams p q 2 ts ts')
    (hOpen : ¬ (p.next ts).is .openParen = true) :
    L.Steps L.expr
      (Parse.fail (p.next ts) (.missingOpeningParen "if expression" (p.next ts).describe))
      (Parse.operand q ts' .cond) := by
  have hOpen' : ¬ (q.next ts').is .openParen = true := h.next_is (by omega) .openParen ▸ hOpen
  rw [operand_cond_unopened hOpen']
  exact Steps.fail L.exprNone (h.next (by omega)) (.missingOpeningParen "if expression" "")

theorem operand_integer_alike (hClass : t.tokenClass = .number) :
    (L.contract p q).operand (t :: rest) (Parse.integer t) := by
  intro ts' rule h hOpening
  cases hOpening.unique (.integer hClass)
  rw [operand]
  exact L.integer (h.current (Nat.succ_pos _)) hClass

theorem operand_truth_alike (hClass : t.tokenClass = .boolean) :
    (L.contract p q).operand (t :: rest) (Parse.truth t) := by
  intro ts' rule h hOpening
  cases hOpening.unique (.truth hClass)
  rw [operand]
  exact L.truth (h.current (Nat.succ_pos _)) hClass

theorem operand_name_alike (hClass : t.tokenClass = .identifier) :
    (L.contract p q).operand (t :: rest) (Parse.name t) := by
  intro ts' rule h hOpening
  cases hOpening.unique (.name hClass)
  rw [operand]
  exact L.name (h.current (Nat.succ_pos _)) hClass

theorem operand_unary_alike (hq : q.IsStandard) {op : UnaryOp} {s : Step (Option Expr)}
    (hIs : t.is op.symbol = true) (hOperand : (L.contract p q).expression rest .unary s) :
    (L.contract p q).operand (t :: rest) ((s.build (.unary op)).after 1 []) := by
  intro ts' rule h hOpening
  cases hOpening.unique (.unary _ hIs)
  obtain ⟨t', rest', rfl, hIs', -, hBehind⟩ := h.cons_of_is hq hIs
  rw [Step.moved_after, Step.moved_build] at hBehind
  exact steps_unary hIs' (hOperand _ (hBehind.mono (by omega)))

theorem operand_group_alike {s : Step (Option Expr)} (hIs : t.is .openParen = true)
    (hInner : (L.contract p q).expression rest .lowest s) :
    (L.contract p q).operand (t :: rest)
      ((closing p .closeParen (.missingClosingParen "grouped expression") rest s).after 1 []) := by
  intro ts' rule h hOpening
  cases hOpening.unique (.group hIs)
  have hMoved := moved_le_closing p .closeParen (.missingClosingParen "grouped expression") rest s
  rw [Step.moved_after] at h
  have hInside : L.Streams p q (s.moved + 2) rest (ts'.drop 1) := h.drop (k := 1) rfl (by omega)
  exact steps_group (t :: rest) ts' hInside (hInner _ hInside)

theorem operand_cond_alike (hq : q.IsStandard) {condition s : Step (Option Expr)}
    (hIs : t.is .ifWord = true) (hOpen : (p.current rest).is .openParen = true)
    (hCondition : (L.contract p q).expression rest .lowest condition)
    (hRest : (L.contract p q).branches (rest.drop condition.moved) condition.value s) :
    (L.contract p q).operand (t :: rest) (s.after (1 + condition.moved) condition.errors) := by
  intro ts' rule h hOpening
  cases hOpening.unique (.cond hIs)
  obtain ⟨t', rest', rfl, -, -, hBehind⟩ := h.cons_of_is hq hIs
  rw [Step.moved_after] at hBehind
  exact steps_cond (hBehind.mono (by omega)) hOpen hCondition hRest

theorem operand_cond_unopened_alike (hIs : t.is .ifWord = true)
    (hOpen : ¬ (p.current rest).is .openParen = true) :
    (L.contract p q).operand (t :: rest) (Parse.fail (p.current rest)
      (.missingOpeningParen "if expression" (p.current rest).describe)) := by
  intro ts' rule h hOpening
  cases hOpening.unique (.cond hIs)
  exact steps_condUnopened h hOpen

theorem branches_unclosed_alike {condition : Option Expr}
    (hClose : ¬ (p.current ts).is .closeParen = true) :
    (L.contract p q).branches ts condition (Parse.fail (p.current ts)
      (.missingClosingParen "if expression" (p.current ts).describe)) := by
  intro ts' condition' h _
  have hClose' : ¬ (q.current ts').is .closeParen = true :=
    h.current_is (Nat.succ_pos _) .closeParen ▸ hClose
  rw [branches_unclosed hClose']
  exact Steps.fail L.exprNone (h.current (Nat.succ_pos _)) (.missingClosingParen "if expression" "")

theorem branches_unopened_alike {condition : Option Expr}
    (hClose : (p.current ts).is .closeParen = true)
    (hOpening : ¬ (p.next ts).is .openCurly = true) :
    (L.contract p q).branches ts condition
      ((Parse.fail (p.next ts)
        (.missingOpeningCurly "if expression" (p.next ts).describe)).after 1 []) := by
  intro ts' condition' h _
  rw [Step.moved_after] at h
  have hClose' : (q.current ts').is .closeParen = true :=
    h.current_is (Nat.succ_pos _) .closeParen ▸ hClose
  have hOpening' : ¬ (q.next ts').is .openCurly = true := h.next_is (by omega) .openCurly ▸ hOpening
  rw [branches_unopened hClose' hOpening']
  exact (Steps.fail L.exprNone (h.next (by omega))
    (.missingOpeningCurly "if expression" "")).moving 1

theorem branches_alike (hq : q.IsStandard) {close opening : Token} {condition : Option Expr}
    {body : Step (List Stmt)} {s : Step (Option Expr)} (hClose : close.is .closeParen = true)
    (hOpening : opening.is .openCurly = true)
    (hBody : (L.contract p q).block (opening :: rest) body)
    (hRest :
      (L.contract p q).otherwise ((opening :: rest).drop body.moved) condition body.value s) :
    (L.contract p q).branches (close :: opening :: rest) condition
      (s.after (1 + body.moved) body.errors) := by
  intro ts' condition' h hCondition
  have hSeen : L.Streams p q (body.moved + s.moved + 2 + 1) (close :: opening :: rest) ts' :=
    h.mono (by rw [Step.moved_after]; omega)
  obtain ⟨close', tail', rfl, hClose', -, hTail⟩ := hSeen.cons_of_is hq hClose
  obtain ⟨opening', rest', rfl, hOpening', -, -⟩ := hTail.cons_of_is hq hOpening
  have hBody' := hBody _ (hTail.mono (by omega))
  have hBehind : L.Streams p q (s.moved + 2) ((opening :: rest).drop body.moved) _ :=
    hTail.drop hBody'.moved (by omega)
  rw [branches_cons hClose' hOpening']
  exact (hRest _ _ _ hBehind hCondition hBody'.value).after (congrArg (1 + ·) hBody'.moved)
    hBody'.errors

theorem otherwise_none_alike {condition : Option Expr} {body : List Stmt}
    (hElse : ¬ (p.next ts).is .elseWord = true) :
    (L.contract p q).otherwise ts condition body
      (.stay (condition.map fun c => .cond c body none)) := by
  intro ts' condition' body' h hCondition hBody
  rw [Step.moved_stay] at h
  have hElse' : ¬ (q.next ts').is .elseWord = true := h.next_is (by omega) .elseWord ▸ hElse
  rw [otherwise_none hElse']
  exact ⟨L.cond hCondition hBody, rfl, Reports.nil⟩

theorem otherwise_unopened_alike {condition : Option Expr} {body : List Stmt}
    (hElse : (p.next ts).is .elseWord = true)
    (hOpening : ¬ (p.next (ts.drop 1)).is .openCurly = true) :
    (L.contract p q).otherwise ts condition body
      ((Parse.fail (p.next (ts.drop 1))
        (.missingOpeningCurly "else expression" (p.next (ts.drop 1)).describe)).after 1 []) := by
  intro ts' condition' body' h _ _
  have hSeen : L.Streams p q 3 ts ts' := h
  have hBehind : L.Streams p q 2 (ts.drop 1) (ts'.drop 1) := hSeen.drop rfl (by omega)
  have hElse' : (q.next ts').is .elseWord = true := hSeen.next_is (by omega) .elseWord ▸ hElse
  have hOpening' : ¬ (q.next (ts'.drop 1)).is .openCurly = true :=
    hBehind.next_is (by omega) .openCurly ▸ hOpening
  rw [otherwise_unopened hElse' hOpening']
  exact (Steps.fail L.exprNone (hBehind.next (by omega))
    (.missingOpeningCurly "else expression" "")).moving 1

theorem otherwise_alike (hq : q.IsStandard) {last word opening : Token} {condition : Option Expr}
    {body : List Stmt} {other : Step (List Stmt)} (hElse : word.is .elseWord = true)
    (hOpening : opening.is .openCurly = true)
    (hOther : (L.contract p q).block (opening :: rest) other) :
    (L.contract p q).otherwise (last :: word :: opening :: rest) condition body
      ⟨condition.map fun c => .cond c body (some other.value), 2 + other.moved, other.errors⟩ := by
  intro ts' condition' body' h hCondition hBody
  have hSeen : L.Streams p q (other.moved + 2 + 2) (last :: word :: opening :: rest) ts' :=
    h.mono (by dsimp only; omega)
  obtain ⟨last', word', tail', rfl, -, hElse', hTail⟩ := hSeen.cons_cons_of_is hq hElse
  obtain ⟨opening', rest', rfl, hOpening', -, -⟩ := hTail.cons_of_is hq hOpening
  have hOther' := hOther _ (hTail.mono (by omega))
  rw [otherwise_some hElse' hOpening']
  exact ⟨L.condElse hCondition hBody hOther'.value, congrArg (2 + ·) hOther'.moved, hOther'.errors⟩

/-! ### Statements -/

theorem steps_block {s : Step (List Stmt)}
    (hs : L.Steps L.body s (Parse.statements q (ts'.drop 1) true)) :
    L.Steps L.body (s.after 1 []) (Parse.block q ts') := by
  rw [block_eq]
  exact hs.moving 1

theorem block_alike {s : Step (List Stmt)} (hs : (L.contract p q).statements rest true s) :
    (L.contract p q).block (t :: rest) (s.after 1 []) := by
  intro ts' h
  rw [Step.moved_after] at h
  have hInside : L.Streams p q (s.moved + 1) rest (ts'.drop 1) := h.drop (k := 1) rfl (by omega)
  exact steps_block (hs _ hInside)

theorem statements_ended (hp : p.IsStandard) (hq : q.IsStandard) {inBlock : Bool}
    (hEnds : Ends inBlock ts) : (L.contract p q).statements ts inBlock (.stay []) := by
  intro ts' h
  rw [statements_of_ends ((h.ends hp hq (Nat.succ_pos _)).1 hEnds)]
  exact ⟨L.bodyNil, rfl, Reports.nil⟩

theorem statements_next (hp : p.IsStandard) (hq : q.IsStandard) {inBlock : Bool}
    {one : Step (Option Stmt)} {others : Step (List Stmt)} (hEnds : ¬ Ends inBlock (t :: rest))
    (hOne : (L.contract p q).statement (t :: rest) one)
    (hOthers : (L.contract p q).statements (rest.drop one.moved) inBlock others) :
    (L.contract p q).statements (t :: rest) inBlock
      ⟨one.value.toList ++ others.value, one.moved + 1 + others.moved,
        one.errors ++ others.errors⟩ := by
  intro ts' h
  have hSeen : L.Streams p q (one.moved + others.moved + 1 + 1) (t :: rest) ts' :=
    h.mono (by dsimp only; omega)
  have hEnds' : ¬ Ends inBlock ts' := by rwa [← hSeen.ends hp hq (Nat.succ_pos _)]
  cases ts' with
  | nil => exact absurd (fun t ht => nomatch ht) hEnds'
  | cons t' rest' =>
    have hOne' := hOne _ (hSeen.mono (by omega))
    have hBehind : L.Streams p q (others.moved + 1) (rest.drop one.moved) _ :=
      hSeen.tail.drop hOne'.moved (by omega)
    have hOthers' := hOthers _ hBehind
    rw [statements_cons hEnds']
    exact ⟨L.bodyCons hOne'.value hOthers'.value, by rw [hOne'.moved, hOthers'.moved],
      Reports.append hOne'.errors hOthers'.errors⟩

theorem steps_expressionStmt {s : Step (Option Expr)} (h : L.Streams p q (s.moved + 2) ts ts')
    (hs : L.Steps L.expr s (Parse.expression q ts' .lowest)) :
    L.Steps L.stmt ⟨s.value.map .expr,
      s.moved + (if (p.next (ts.drop s.moved)).is .semicolon then 1 else 0), s.errors⟩
      (Parse.expressionStmt q ts') := by
  have hBehind : L.Streams p q 2 (ts.drop s.moved) _ := h.drop hs.moved (by omega)
  rw [expressionStmt_eq]
  refine ⟨L.exprStmt hs.value, ?_, hs.errors⟩
  rw [hBehind.next_is (by omega), hs.moved]

theorem steps_ret (ts ts' : List Token) {s : Step (Option Expr)}
    (h : L.Streams p q (s.moved + 2) (ts.drop 1) (ts'.drop 1))
    (hs : L.Steps L.expr s (Parse.expression q (ts'.drop 1) .lowest)) :
    L.Steps L.stmt
      (((closing p .semicolon (.missingSemicolon "return") (ts.drop 1) s).build .ret).after 1 [])
      (Parse.ret q ts') := by
  rw [ret_eq]
  have hClosed := Steps.closing hs L.exprNone h .semicolon (.missingSemicolon "return" "")
  exact (Steps.around hClosed L.ret).moving 1

theorem steps_varDecl {word word' sign' : Token} {s : Step (Option Expr)}
    (hWord : L.token word word') (hName : word.tokenClass = .identifier)
    (hSign : sign'.is .assignment = true) (h : L.Streams p q (s.moved + 2) rest rest')
    (hs : L.Steps L.expr s (Parse.expression q rest' .lowest)) :
    L.Steps L.stmt
      (((closing p .semicolon (.missingSemicolon "var") rest s).build
        fun v => .varDecl word.lexeme (some v)).after 3 [])
      (Parse.varDecl q (t' :: word' :: sign' :: rest')) := by
  have hName' : word'.tokenClass = .identifier :=
    tokenClass_of_key (L.key hWord) hName fun s => s.tokenClass_ne.2.2.1
  have hClosed := Steps.closing hs L.exprNone h .semicolon (.missingSemicolon "var" "")
  rw [varDecl_some hName' hSign]
  exact (Steps.around hClosed (L.varDecl hWord hName)).moving 3

theorem varDecl_some_alike (hq : q.IsStandard) {word sign : Token} {s : Step (Option Expr)}
    (hName : word.tokenClass = .identifier) (hSign : sign.is .assignment = true)
    (hExpr : (L.contract p q).expression rest .lowest s)
    (h : L.Streams p q (s.moved + 2 + 3) (t :: word :: sign :: rest) ts') :
    L.Steps L.stmt
      (((closing p .semicolon (.missingSemicolon "var") rest s).build
        fun v => .varDecl word.lexeme (some v)).after 3 [])
      (Parse.varDecl q ts') := by
  obtain ⟨t', word', sign', rest', rfl, hWord, hSign', hBehind⟩ := h.cons_cons_cons_of_is hq hSign
  exact steps_varDecl hWord hName hSign' hBehind (hExpr _ hBehind)

theorem varDecl_none_alike (hq : q.IsStandard) {word sign : Token}
    (hName : word.tokenClass = .identifier) (hSign : sign.is .semicolon = true)
    (h : L.Streams p q 3 (t :: word :: sign :: rest) ts') :
    L.Steps L.stmt ⟨some (.varDecl word.lexeme none), 2, []⟩ (Parse.varDecl q ts') := by
  obtain ⟨t', word', sign', rest', rfl, hWord, hSign', -⟩ :=
    h.cons_cons_cons_of_is (n := 0) hq hSign
  have hName' : word'.tokenClass = .identifier :=
    tokenClass_of_key (L.key hWord) hName fun s => s.tokenClass_ne.2.2.1
  rw [varDecl_none hName' hSign']
  exact ⟨L.declaration hWord hName, rfl, Reports.nil⟩

theorem varDecl_unnamed_alike (h : L.Streams p q 2 ts ts')
    (hName : (p.next ts).tokenClass ≠ .identifier) :
    L.Steps L.stmt (Parse.fail (p.next ts) (.expectedName (p.next ts).describe))
      (Parse.varDecl q ts') := by
  have hNext := h.next (by omega)
  have hName' : (q.next ts').tokenClass ≠ .identifier := by
    intro hClass
    exact hName (tokenClass_of_key (L.key hNext).symm hClass fun s => s.tokenClass_ne.2.2.1)
  rw [varDecl_unnamed hName']
  exact Steps.fail L.stmtNone hNext (.expectedName "")

theorem varDecl_unassigned_alike (h : L.Streams p q 3 ts ts')
    (hName : (p.next ts).tokenClass = .identifier)
    (hSemicolon : ¬ (p.next (ts.drop 1)).is .semicolon = true)
    (hAssignment : ¬ (p.next (ts.drop 1)).is .assignment = true) :
    L.Steps L.stmt
      ((Parse.fail (p.next (ts.drop 1))
        (.expectedAssignment (p.next (ts.drop 1)).describe)).after 1 [])
      (Parse.varDecl q ts') := by
  have hBehind : L.Streams p q 2 (ts.drop 1) (ts'.drop 1) := h.drop rfl (by omega)
  have hName' : (q.next ts').tokenClass = .identifier :=
    tokenClass_of_key (L.key (h.next (by omega))) hName fun s => s.tokenClass_ne.2.2.1
  have hSemicolon' : ¬ (q.next (ts'.drop 1)).is .semicolon = true :=
    hBehind.next_is (by omega) .semicolon ▸ hSemicolon
  have hAssignment' : ¬ (q.next (ts'.drop 1)).is .assignment = true :=
    hBehind.next_is (by omega) .assignment ▸ hAssignment
  rw [varDecl_unassigned hName' hSemicolon' hAssignment']
  exact (Steps.fail L.stmtNone (hBehind.next (by omega)) (.expectedAssignment "")).moving 1

theorem statement_expr_alike (hq : q.IsStandard) {s : Step (Option Expr)}
    (hVar : ¬ (p.current ts).is .varWord = true) (hReturn : ¬ (p.current ts).is .returnWord = true)
    (hExpr : (L.contract p q).expression ts .lowest s) :
    (L.contract p q).statement ts ⟨s.value.map .expr,
      s.moved + (if (p.next (ts.drop s.moved)).is .semicolon then 1 else 0), s.errors⟩ := by
  intro ts' h
  have hSeen : L.Streams p q (s.moved + 2) ts ts' := h.mono (by dsimp only; omega)
  have hCurrent := hSeen.current_is (Nat.succ_pos _)
  rw [statement_expr hq (hCurrent .varWord ▸ hVar) (hCurrent .returnWord ▸ hReturn)]
  exact steps_expressionStmt hSeen (hExpr _ hSeen)

theorem statement_ret_alike (hq : q.IsStandard) {s : Step (Option Expr)}
    (hIs : t.is .returnWord = true) (hExpr : (L.contract p q).expression rest .lowest s) :
    (L.contract p q).statement (t :: rest)
      (((closing p .semicolon (.missingSemicolon "return") rest s).build .ret).after 1 []) := by
  intro ts' h
  have hMoved := moved_le_closing p .semicolon (.missingSemicolon "return") rest s
  rw [Step.moved_after, Step.moved_build] at h
  have hBehind : L.Streams p q (s.moved + 2) rest (ts'.drop 1) := h.drop (k := 1) rfl (by omega)
  have hIs' : (q.current ts').is .returnWord = true :=
    h.current_is (Nat.succ_pos _) .returnWord ▸ hIs
  rw [statement_eq_ret hq hIs']
  exact steps_ret (t :: rest) ts' hBehind (hExpr _ hBehind)

theorem statement_varDecl_alike (hq : q.IsStandard) {s : Step (Option Stmt)}
    (hIs : t.is .varWord = true)
    (hs : ∀ ts', L.Streams p q (s.moved + 2) (t :: rest) ts' →
      L.Steps L.stmt s (Parse.varDecl q ts')) :
    (L.contract p q).statement (t :: rest) s := by
  intro ts' h
  have hIs' : (q.current ts').is .varWord = true := h.current_is (Nat.succ_pos _) .varWord ▸ hIs
  rw [statement_eq_varDecl hq hIs']
  exact hs ts' h

/-! ## All parsing functions -/

theorem varDecl_seen {s : Step (Option Expr)} {f : Expr → Stmt}
    (h : L.Streams p q ((((closing p .semicolon (.missingSemicolon "var") rest s).build
      f).after 3 []).moved + 2) ts ts') : L.Streams p q (s.moved + 2 + 3) ts ts' := by
  have hMoved := moved_le_closing p .semicolon (.missingSemicolon "var") rest s
  rw [Step.moved_after, Step.moved_build] at h
  exact h.mono (by omega)

/-- Every way to a result has its like in the other parse. -/
theorem contract_respected (L : Likeness) (hp : p.IsStandard) (hq : q.IsStandard) :
    (L.contract p q).Respected p where
  noOperand hNone := expression_noOperand hq hNone
  opened hOpening hFirst hRest := expression_opened hq hOpening hFirst hRest
  stop hStop := operators_stopped hq hp hStop
  fold hIs hFloor hRight hRest := operators_folded hq hIs hFloor hRight hRest
  integer hClass := operand_integer_alike hClass
  truth hClass := operand_truth_alike hClass
  name hClass := operand_name_alike hClass
  unary hIs hOperand := operand_unary_alike hq hIs hOperand
  group hIs hInner := operand_group_alike hIs hInner
  cond hIs hOpen hCondition hRest := operand_cond_alike hq hIs hOpen hCondition hRest
  condUnopened hIs hOpen := operand_cond_unopened_alike hIs hOpen
  branches hClose hOpening hBody hRest := branches_alike hq hClose hOpening hBody hRest
  branchesUnclosed hClose := branches_unclosed_alike hClose
  branchesUnopened hClose hOpening := branches_unopened_alike hClose hOpening
  otherwiseNone hElse := otherwise_none_alike hElse
  otherwise hElse hOpening hOther := otherwise_alike hq hElse hOpening hOther
  otherwiseUnopened hElse hOpening := otherwise_unopened_alike hElse hOpening
  block _ hInside := block_alike hInside
  ends hEnds := statements_ended hp hq hEnds
  next hEnds hOne hOthers := statements_next hp hq hEnds hOne hOthers
  expressionStmt hVar hReturn hExpr := statement_expr_alike hq hVar hReturn hExpr
  ret hIs hExpr := statement_ret_alike hq hIs hExpr
  varDecl hIs hName hSign hExpr := statement_varDecl_alike hq hIs fun _ h =>
    varDecl_some_alike hq hName hSign hExpr (varDecl_seen h)
  varDeclNone hIs hName hSign := statement_varDecl_alike hq hIs fun _ h =>
    varDecl_none_alike hq hName hSign (h.mono (Nat.le_succ 3))
  varDeclUnnamed hIs hName := statement_varDecl_alike hq hIs fun _ h =>
    varDecl_unnamed_alike h hName
  varDeclUnassigned hIs hName hSemicolon hAssignment := statement_varDecl_alike hq hIs fun _ h =>
    varDecl_unassigned_alike h hName hSemicolon hAssignment

theorem holdsAt (L : Likeness) (hp : p.IsStandard) (hq : q.IsStandard) (ts : List Token) :
    Contract.HoldsAt p (L.contract p q) ts :=
  Contract.holdsAt (L.contract_respected hp hq) hp ts

/-! ## Functions called at any place -/

section

variable (hp : p.IsStandard) (hq : q.IsStandard) (h : ∀ n, L.Streams p q n ts ts')
include hp hq h

theorem expression_at (floor : BindingPower) :
    L.Steps L.expr (Parse.expression p ts floor) (Parse.expression q ts' floor) :=
  (L.holdsAt hp hq ts).expression floor ts' (h _)

theorem binary_at (left left' : Option Expr) (hLeft : L.expr left left') (floor : BindingPower) :
    L.Steps L.expr (Parse.binary p ts left floor) (Parse.binary q ts' left' floor) := by
  have hCurrent := (h 1).current (Nat.succ_pos 0)
  by_cases hOp : ∃ op : BinaryOp, (p.current ts).is op.symbol = true
  · obtain ⟨op, hOp⟩ := hOp
    obtain ⟨t, rest, rfl, hIs⟩ := hp.exists_cons hOp
    have hExpr := (L.holdsAt hp hq rest).expression floor
    obtain ⟨t', rest', rfl, hIs', -, hBehind⟩ := (h (_ + 1)).cons_of_is hq hIs
    rw [binary_of_is hIs]
    exact steps_binary hIs' hLeft (hExpr _ hBehind)
  · have hNone : ∀ op : BinaryOp, ¬ (p.current ts).is op.symbol = true := fun op h => hOp ⟨op, h⟩
    have hNone' : ∀ op : BinaryOp, ¬ (q.current ts').is op.symbol = true := by
      intro op
      rw [← is_of_key (L.key hCurrent)]
      exact hNone op
    rw [binary_none hNone, binary_none hNone']
    exact Steps.fail L.exprNone hCurrent (.unexpectedToken "")

theorem unary_at : L.Steps L.expr (Parse.operand p ts .unary) (Parse.operand q ts' .unary) := by
  have hCurrent := (h 1).current (Nat.succ_pos 0)
  by_cases hOp : ∃ op : UnaryOp, (p.current ts).is op.symbol = true
  · obtain ⟨op, hOp⟩ := hOp
    obtain ⟨t, rest, rfl, hIs⟩ := hp.exists_cons hOp
    have hExpr := (L.holdsAt hp hq rest).expression .unary
    obtain ⟨t', rest', rfl, hIs', -, hBehind⟩ := (h (_ + 1)).cons_of_is hq hIs
    rw [operand_unary hIs]
    exact steps_unary hIs' (hExpr _ hBehind)
  · have hNone : ∀ op : UnaryOp, ¬ (p.current ts).is op.symbol = true := fun op h => hOp ⟨op, h⟩
    have hNone' : ∀ op : UnaryOp, ¬ (q.current ts').is op.symbol = true := by
      intro op
      rw [← is_of_key (L.key hCurrent)]
      exact hNone op
    rw [operand_unary_none hNone, operand_unary_none hNone']
    exact Steps.fail L.exprNone hCurrent (.noOperand "")

theorem group_at : L.Steps L.expr (Parse.operand p ts .group) (Parse.operand q ts' .group) := by
  have hInside : ∀ n, L.Streams p q n (ts.drop 1) (ts'.drop 1) :=
    fun n => (h (1 + n)).drop rfl (Nat.le_refl _)
  rw [operand_group_eq]
  exact steps_group ts ts' (hInside _) (expression_at hp hq hInside .lowest)

theorem cond_at : L.Steps L.expr (Parse.operand p ts .cond) (Parse.operand q ts' .cond) := by
  by_cases hOpen : (p.next ts).is .openParen = true
  · obtain ⟨t, second, rest, rfl, hIs⟩ := hp.exists_cons_next hOpen
    rw [Setting.next_cons] at hOpen
    rw [operand_cond hOpen]
    obtain ⟨t', second', rest', rfl, -, -, -⟩ := (h 2).cons_cons_of_is hq hIs
    exact steps_cond (h _).tail hOpen ((L.holdsAt hp hq _).expression _)
      ((L.holdsAt hp hq _).branches _)
  · rw [operand_cond_unopened hOpen]
    exact steps_condUnopened (h 2) hOpen

theorem block_at : L.Steps L.body (Parse.block p ts) (Parse.block q ts') := by
  rw [block_eq]
  exact steps_block ((L.holdsAt hp hq _).statements true _ ((h (1 + _)).drop rfl (Nat.le_refl _)))

theorem varDecl_at : L.Steps L.stmt (Parse.varDecl p ts) (Parse.varDecl q ts') := by
  by_cases hName : (p.next ts).tokenClass = .identifier
  · by_cases hSemicolon : (p.next (ts.drop 1)).is .semicolon = true
    · obtain ⟨t, word, sign, rest, rfl, hSign⟩ := hp.exists_cons_next_next hSemicolon
      rw [Setting.next_cons, Setting.current_cons] at hName
      rw [varDecl_none hName hSign]
      exact varDecl_none_alike hq hName hSign (h 3)
    · by_cases hAssignment : (p.next (ts.drop 1)).is .assignment = true
      · obtain ⟨t, word, sign, rest, rfl, hSign⟩ := hp.exists_cons_next_next hAssignment
        rw [Setting.next_cons, Setting.current_cons] at hName
        rw [varDecl_some hName hSign]
        exact varDecl_some_alike hq hName hSign ((L.holdsAt hp hq rest).expression _) (h _)
      · rw [varDecl_unassigned hName hSemicolon hAssignment]
        exact varDecl_unassigned_alike (h 3) hName hSemicolon hAssignment
  · rw [varDecl_unnamed hName]
    exact varDecl_unnamed_alike (h 2) hName

theorem ret_at : L.Steps L.stmt (Parse.ret p ts) (Parse.ret q ts') := by
  have hBehind : ∀ n, L.Streams p q n (ts.drop 1) (ts'.drop 1) :=
    fun n => (h (1 + n)).drop rfl (Nat.le_refl _)
  rw [ret_eq]
  exact steps_ret ts ts' (hBehind _) (expression_at hp hq hBehind .lowest)

theorem expressionStmt_at :
    L.Steps L.stmt (Parse.expressionStmt p ts) (Parse.expressionStmt q ts') := by
  rw [expressionStmt_eq]
  exact steps_expressionStmt (h _) (expression_at hp hq h .lowest)

theorem statements_at (inBlock : Bool) :
    L.Steps L.body (Parse.statements p ts inBlock) (Parse.statements q ts' inBlock) :=
  (L.holdsAt hp hq ts).statements inBlock ts' (h _)

end

end Likeness

end Parse
end Frontend
