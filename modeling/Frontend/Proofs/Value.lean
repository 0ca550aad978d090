import Mathlib.Algebra.Group.Nat.Even
import Frontend.Value

/-!
# Values in closed form

Whether an expression has a value, and which one, can be read off the operators in front of it and
what stands behind them. Only a literal behind the operators has a value. Negations alone keep an
integer, up to its sign; what `!` has been applied to is never an integer again, so that a negation
further out gives null.

* `Expr.core`, `Expr.operators`: what stands behind the operators, and the operators.
* `Expr.eval_eq`: the operators are applied to the value of the core, from the inside out.
* `isResult_apply`: what operators give on a literal.
* `evalStatements_eq`: a program has the value of its last statement, unless one is refused.
* `eval_closed_form`: for expressions and for programs.
-/

namespace Frontend

/-- What stands behind all operators in front of an operand. -/
def Expr.core : Expr → Expr
  | .unary _ e => e.core
  | e => e

/-- All operators in front of an operand, the outermost first. -/
def Expr.operators : Expr → List UnaryOp
  | .unary op e => op :: e.operators
  | _ => []

def Expr.literal? : Expr → Option Value
  | .int v => some (.int v)
  | .bool b => some (.bool b)
  | _ => none

/-- By which name an expression is refused that is neither a literal nor an applied operator. -/
def Expr.refusedAs? : Expr → Option String
  | .name _ => some "identifier"
  | .binary _ _ _ => some "infix expression"
  | .cond _ _ _ => some "if expression"
  | _ => none

theorem Expr.core_ne_unary (e : Expr) (op : UnaryOp) (inner : Expr) : e.core ≠ .unary op inner := by
  match e with
  | .unary _ e => exact e.core_ne_unary op inner
  | .int _ | .bool _ | .name _ | .binary _ _ _ | .cond _ _ _ => exact nofun

/-- An expression is its core behind its operators. -/
theorem Expr.foldr_operators (e : Expr) : e.operators.foldr .unary e.core = e := by
  match e with
  | .unary op e => exact congrArg (Expr.unary op) e.foldr_operators
  | .int _ | .bool _ | .name _ | .binary _ _ _ | .cond _ _ _ => rfl

/-- The operators are applied to the value of the core, the innermost first. -/
theorem Expr.eval_eq (e : Expr) :
    e.eval = e.core.eval.map fun v => e.operators.foldr UnaryOp.apply v := by
  match e with
  | .unary op e =>
    rw [Expr.eval, e.eval_eq, Expr.core, Expr.operators]
    cases e.core.eval <;> rfl
  | .int _ | .bool _ | .name _ | .binary _ _ _ | .cond _ _ _ => rfl

/-! ## Which expressions have a value -/

theorem Expr.eval_of_literal? {e : Expr} {v : Value} (h : e.core.literal? = some v) :
    e.eval = .ok (e.operators.foldr UnaryOp.apply v) := by
  rw [e.eval_eq]
  revert h
  match e.core with
  | .int _ | .bool _ =>
    rintro ⟨⟩
    rfl
  | .unary _ _ | .name _ | .binary _ _ _ | .cond _ _ _ => exact nofun

theorem Expr.eval_of_refusedAs? {e : Expr} {kind : String} (h : e.core.refusedAs? = some kind) :
    e.eval = notEvaluable kind := by
  rw [e.eval_eq]
  revert h
  match e.core with
  | .name _ | .binary _ _ _ | .cond _ _ _ =>
    rintro ⟨⟩
    rfl
  | .int _ | .bool _ | .unary _ _ => exact nofun

theorem Expr.exists_refusedAs? {e : Expr} (h : e.core.literal? = none) :
    ∃ kind, e.core.refusedAs? = some kind := by
  cases hCore : e.core with
  | unary op inner => exact absurd hCore (e.core_ne_unary op inner)
  | int _ | bool _ =>
    rw [hCore] at h
    cases h
  | name _ | binary _ _ _ | cond _ _ _ => exact ⟨_, rfl⟩

theorem Expr.literal?_ne_null {e : Expr} {v : Value} (h : e.literal? = some v) : v ≠ .null := by
  cases e with
  | int _ | bool _ =>
    cases h
    nofun
  | _ => cases h

theorem Expr.isOk_eval_iff (e : Expr) : e.eval.isOk ↔ ∃ v, e.core.literal? = some v := by
  cases hLiteral : e.core.literal? with
  | some v =>
    rw [Expr.eval_of_literal? hLiteral]
    exact ⟨fun _ => ⟨v, rfl⟩, fun _ => rfl⟩
  | none =>
    obtain ⟨kind, hRefused⟩ := Expr.exists_refusedAs? hLiteral
    rw [Expr.eval_of_refusedAs? hRefused]
    exact ⟨nofun, nofun⟩

/-! ## What operators give -/

section

variable {ops : List UnaryOp} {v : Value}

/-- An integer comes only from an integer, and only if nothing but negations is applied. -/
theorem apply_all_int_iff :
    (∃ n, ops.foldr UnaryOp.apply v = .int n) ↔ .not ∉ ops ∧ ∃ n, v = .int n := by
  induction ops with
  | nil => simp
  | cons op ops ih =>
    rw [List.foldr_cons]
    cases op with
    | not => cases ops.foldr UnaryOp.apply v <;> simp [UnaryOp.apply]
    | negate =>
      have hNegated : ∀ w : Value, (∃ n, UnaryOp.negate.apply w = .int n) ↔ ∃ n, w = .int n := by
        intro w
        cases w <;> simp [UnaryOp.apply]
      rw [hNegated, ih]
      simp

/-- Null comes from a negation of what is no integer. -/
theorem apply_all_null_iff (hv : v ≠ .null) :
    ops.foldr UnaryOp.apply v = .null ↔
      ops.head? = some .negate ∧ (.not ∈ ops ∨ ∃ b, v = .bool b) := by
  cases ops with
  | nil => simp [hv]
  | cons op ops =>
    rw [List.foldr_cons]
    cases op with
    | not => cases ops.foldr UnaryOp.apply v <;> simp [UnaryOp.apply]
    | negate =>
      have hNegated : ∀ w : Value, UnaryOp.negate.apply w = .null ↔ ¬ ∃ n, w = .int n := by
        intro w
        cases w <;> simp [UnaryOp.apply]
      rw [hNegated, apply_all_int_iff]
      cases v with
      | null => exact absurd rfl hv
      | int n => simp
      | bool b => simp

/-- An even number of negations changes nothing, an odd number changes the sign. -/
theorem apply_all_negate (h : .not ∉ ops) (n : Int64) :
    ops.foldr UnaryOp.apply (.int n) = .int (if Even ops.length then n else -n) := by
  induction ops with
  | nil => rfl
  | cons op ops ih =>
    rw [List.mem_cons, not_or] at h
    cases op with
    | not => exact absurd rfl h.1
    | negate =>
      rw [List.foldr_cons, ih h.2, List.length_cons, UnaryOp.apply]
      by_cases hEven : Even ops.length
      · rw [if_pos hEven, if_neg (by rwa [Nat.even_add_one, not_not])]
      · rw [if_neg hEven, if_pos (Nat.even_add_one.2 hEven), Int64.neg_neg]

theorem apply_not_not (v : Value) :
    UnaryOp.not.apply (UnaryOp.not.apply (UnaryOp.not.apply v)) = UnaryOp.not.apply v := by
  match v with
  | .int _ | .null => rfl
  | .bool b => rw [UnaryOp.apply, UnaryOp.apply, UnaryOp.apply, Bool.not_not]

end

/-- What is known of the value that operators give on a literal, the outermost operator first. -/
structure IsResult (ops : List UnaryOp) (literal result : Value) : Prop where
  /-- Each negation of an integer changes its sign, wrapped around to 64 bits. -/
  int : ∀ n, literal = .int n → .not ∉ ops → ∃ w, result = .int w ∧
    w.toInt = if Even ops.length then n.toInt else (-n.toInt).bmod (2 ^ 64)
  null_iff : result = .null ↔
    ops.head? = some .negate ∧ (.not ∈ ops ∨ ∃ b, literal = .bool b)
  bool : (.not ∈ ops ∨ ∃ b, literal = .bool b) → result ≠ .null → ∃ b, result = .bool b
  bare : ops = [] → result = literal

theorem isResult_apply {literal : Value} (h : literal ≠ .null) (ops : List UnaryOp) :
    IsResult ops literal (ops.foldr UnaryOp.apply literal) where
  int := by
    rintro n rfl hNot
    refine ⟨_, apply_all_negate hNot n, ?_⟩
    split
    · rfl
    · exact Int64.toInt_neg n
  null_iff := apply_all_null_iff h
  bool := by
    intro hKind hNull
    cases hResult : ops.foldr UnaryOp.apply literal with
    | null => exact absurd hResult hNull
    | bool b => exact ⟨b, rfl⟩
    | int w =>
      obtain ⟨hNot, n, rfl⟩ := apply_all_int_iff.1 ⟨w, hResult⟩
      rcases hKind with hMem | ⟨b, hBool⟩
      · exact absurd hMem hNot
      · cases hBool
  bare := by
    rintro rfl
    rfl

/-! ## Programs -/

/-- The value of what runs from `start` on: the first statement that is refused decides, and
otherwise the last one. -/
theorem foldlM_eval_eq (statements : List Stmt) (start : Value) :
    statements.foldlM (fun _ s => s.eval) start =
      match statements.find? fun s => !s.eval.isOk with
      | some s => s.eval
      | none => (statements.getLast?.map Stmt.eval).getD (.ok start) := by
  induction statements generalizing start with
  | nil => rfl
  | cons s rest ih =>
    rw [List.foldlM_cons]
    cases hValue : s.eval with
    | error d =>
      rw [List.find?_cons_of_pos (by rw [hValue]; rfl)]
      exact hValue.symm
    | ok v =>
      rw [List.find?_cons_of_neg (by rw [hValue]; nofun)]
      show rest.foldlM (fun _ s => s.eval) v = _
      rw [ih]
      cases rest.find? fun s => !s.eval.isOk with
      | some _ => rfl
      | none =>
        cases rest with
        | nil => exact hValue.symm
        | cons t rest => rw [List.getLast?_cons_cons, List.getLast?_cons]; rfl

/-- An expression has a value exactly if a literal stands behind its operators, and its operators
decide which one; otherwise it is refused as what stands behind them, at no place. A program is
refused as its first statement that is, and otherwise has the value of its last one. -/
theorem eval_closed_form :
    (∀ e : Expr,
      e.operators.foldr .unary e.core = e ∧ (∀ op inner, e.core ≠ .unary op inner) ∧
      (e.eval.isOk ↔ ∃ v, e.core.literal? = some v) ∧
      (∀ v, e.core.literal? = some v → ∃ w, e.eval = .ok w ∧ IsResult e.operators v w) ∧
      (e.core.literal? = none → ∃ kind, e.core.refusedAs? = some kind ∧
        e.eval = .error ⟨.notEvaluable kind, .null⟩) ∧
      (Expr.unary .not (.unary .not (.unary .not e))).eval = (Expr.unary .not e).eval) ∧
    ∀ program : Program,
      program.eval =
        match program.statements.find? fun s => !s.eval.isOk with
        | some s => s.eval
        | none => (program.statements.getLast?.map Stmt.eval).getD (.ok .null) := by
  refine ⟨fun e => ⟨e.foldr_operators, e.core_ne_unary, e.isOk_eval_iff, ?_, ?_, ?_⟩,
    fun program => foldlM_eval_eq program.statements .null⟩
  · intro v hLiteral
    exact ⟨_, Expr.eval_of_literal? hLiteral, isResult_apply (Expr.literal?_ne_null hLiteral) _⟩
  · intro hLiteral
    obtain ⟨kind, hRefused⟩ := Expr.exists_refusedAs? hLiteral
    exact ⟨kind, hRefused, Expr.eval_of_refusedAs? hRefused⟩
  · rw [Expr.eval, Expr.eval, Expr.eval]
    cases e.eval with
    | error d => rfl
    | ok v => exact congrArg Except.ok (apply_not_not v)

/-- The smallest integer is its own negation, and `-!5` is null. -/
theorem eval_closed_form_negated :
    (∃ w, (Expr.unary .negate (.int Int64.minValue)).eval = .ok (.int w) ∧
      w.toInt = -9223372036854775808) ∧
    (Expr.unary .negate (.unary .not (.int 5))).eval = .ok .null := by
  constructor
  · obtain ⟨_, _, _, hValue, _⟩ := eval_closed_form.1 (.unary .negate (.int Int64.minValue))
    obtain ⟨_, hEval, hResult⟩ := hValue _ rfl
    obtain ⟨w, rfl, hInt⟩ := hResult.int _ rfl (by decide)
    exact ⟨w, hEval, hInt⟩
  · obtain ⟨_, _, _, hValue, _⟩ := eval_closed_form.1 (.unary .negate (.unary .not (.int 5)))
    obtain ⟨_, hEval, hResult⟩ := hValue _ rfl
    rw [hEval, hResult.null_iff.2 ⟨rfl, Or.inl (by decide)⟩]

end Frontend
