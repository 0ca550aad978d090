import Frontend.Proofs.Parse.Reprint
import Frontend.Proofs.Value

/-!
# What a printed statement means

A statement that is printed and read again has the value it had, with two exceptions. A word like
`true` is a truth value only before certain characters, and printing changes what stands behind it.
Behind an operator the parenthesis of the application follows the word, which makes it a name; and a
name that stands alone is read as a truth value, since the text ends behind it.

* `Expr.eval_eq_of_plain`: trees with the same plain form have the same value, unless the word
  behind their operators reads like a truth value.
* `ofSource_unary`, `ofSource_truth`: how a text with such a word is read.
* `eval_reread_iff`: which statements of a source have the same value again.
-/

namespace Frontend

/-! ## Values and plain forms -/

/-- The statement is nothing but a name that is spelled like a truth value. -/
def Stmt.IsTruthName (s : Stmt) : Prop :=
  ∃ b, s = .expr (.name (Truth.text b))

/-- The statement is nothing but a truth value behind one operator or several. -/
def Stmt.IsAppliedTruth (s : Stmt) : Prop :=
  ∃ op e b, s = .expr (.unary op e) ∧ e.core = .bool b

theorem Expr.core_plain (e : Expr) : e.plain.core = e.core.plain := by
  match e with
  | .unary op e => exact e.core_plain
  | .int _ => rfl
  | .bool _ => rfl
  | .name _ => rfl
  | .binary _ _ _ => rfl
  | .cond _ _ none => rfl
  | .cond _ _ (some _) => rfl

theorem Expr.eval_of_core_name {e : Expr} {n : String} (h : e.core = .name n) :
    e.eval = notEvaluable "identifier" := by
  apply Expr.eval_of_refusedAs?
  rw [h]
  rfl

theorem Expr.eval_plain (e : Expr) (h : ∀ b, e.core ≠ .bool b) : e.plain.eval = e.eval := by
  match e with
  | .unary op e =>
    rw [Expr.plain, Expr.eval, Expr.eval, e.eval_plain h]
  | .int _ => rfl
  | .bool b => exact absurd rfl (h b)
  | .name _ => rfl
  | .binary _ _ _ => rfl
  | .cond _ _ none => rfl
  | .cond _ _ (some _) => rfl

/-- Expressions with the same plain form have the same value, unless a word that reads like a truth
value stands behind their operators. -/
theorem Expr.eval_eq_of_plain {a b : Expr} (h : a.plain = b.plain)
    (hCore : ∀ v, b.core.plain ≠ .name (Truth.text v)) : a.eval = b.eval := by
  have hSame : a.core.plain = b.core.plain := by
    rw [← a.core_plain, h, b.core_plain]
  have hLeft : ∀ v, a.core ≠ .bool v := by
    intro v hBool
    rw [hBool] at hSame
    exact hCore v hSame.symm
  have hRight : ∀ v, b.core ≠ .bool v := by
    intro v hBool
    apply hCore v
    rw [hBool]
    rfl
  rw [← a.eval_plain hLeft, h, b.eval_plain hRight]

theorem Expr.core_of_plain {e : Expr} {n : String} (h : e.core.plain = .name n) :
    (∃ b, e.core = .bool b) ∨ e.core = .name n := by
  cases hWord : e.core with
  | bool b => exact Or.inl ⟨b, rfl⟩
  | name m =>
    rw [hWord] at h
    exact Or.inr h
  | cond c body other =>
    rw [hWord] at h
    cases other <;> cases h
  | _ =>
    rw [hWord] at h
    cases h

/-! ## How a word that reads like a truth value is read -/

theorem ofSource_of_renders {source : String} {e : Expr} {dangling : Bool}
    (h : Reads source.toList [] (Renders e none dangling)) :
    Program.ofSource .default source = ⟨[.expr e], []⟩ := by
  have hReads : Reads source.toList [] fun ts =>
      ∃ body, RendersBody body ts ∧ body = [.expr e] := by
    refine h.imp ?_
    intro ts hRenders
    refine ⟨[.expr e], ?_, rfl⟩
    have hBody := RendersBody.cons (.expr hRenders) .nil fun _ => nofun
    rwa [List.append_nil] at hBody
  obtain ⟨body, hRead, rfl⟩ := exists_ofSource hReads
  exact hRead

/-- A truth value that stands alone is read back. -/
theorem ofSource_truth (b : Bool) :
    Program.ofSource .default (Truth.text b) = ⟨[.expr (.bool b)], []⟩ := by
  have hFound : classify ((Truth.text b).toList ++ []) = some (.boolean, (Truth.text b).toList) :=
    classify_truth rfl
  have hReads : Reads (Truth.text b).toList [] (Renders (.bool b) none false) := by
    refine reads_token hFound nofun ?_
    intro t hClass hLexeme
    rw [String.ofList_toList] at hLexeme
    exact .bool hClass hLexeme
  exact ofSource_of_renders hReads

/-- Before a closing parenthesis the word is a name. -/
theorem reads_truth_closed (b : Bool) (rest : List Char) :
    Reads (Truth.text b).toList (Symbol.closeParen.spelling.toList ++ rest)
      (Renders (.name (Truth.text b)) none false) := by
  have hEnds : ∀ c ∈ (Symbol.closeParen.spelling.toList ++ rest).head?,
      Rule.isWordChar c = false := by
    rintro c ⟨⟩
    decide
  refine reads_token (classify_truth_name hEnds rfl) nofun ?_
  intro t hClass hLexeme
  rw [String.ofList_toList] at hLexeme
  exact .name hClass hLexeme

/-- The operators in front of the word, each with its parentheses. -/
theorem reads_applied {op : UnaryOp} {e : Expr} {rest : List Char}
    (hStarts : Starts e.text.toList)
    (h : Reads e.text.toList (Symbol.closeParen.spelling.toList ++ rest)
      (Renders e.plain none false)) :
    Reads (Expr.unary op e).text.toList rest (Renders (.unary op e.plain) none false) := by
  have hInner := (reads_operator (Or.inl op.tokenClass_symbol) hStarts.not_mark).append h
  rw [toList_unary]
  refine (reads_between (by decide) (by decide) hInner).imp ?_
  rintro _ ⟨opening, _, close, rfl, hOpening, hClose, _, inner, rfl, ⟨t, rfl, hIs⟩, hRenders⟩
  exact .group hOpening hClose (.unary hIs hRenders)

theorem reads_core_truth (e : Expr) {b : Bool} (hSpelled : e.isSpelled = true)
    (h : e.core.plain = .name (Truth.text b)) (rest : List Char) :
    Reads e.text.toList (Symbol.closeParen.spelling.toList ++ rest)
      (Renders e.plain none false) := by
  match e with
  | .unary op e => exact reads_applied (Expr.text_starts hSpelled) (reads_core_truth e hSpelled h _)
  | .bool c => exact reads_truth_closed c rest
  | .name n =>
    cases h
    exact reads_truth_closed b rest
  | .cond _ _ none => cases h
  | .cond _ _ (some _) => cases h

/-- Behind an operator the word is read as a name. -/
theorem ofSource_unary {op : UnaryOp} {e : Expr} {b : Bool} (hSpelled : e.isSpelled = true)
    (h : e.core.plain = .name (Truth.text b)) :
    Program.ofSource .default (Expr.unary op e).text = ⟨[.expr (.unary op e.plain)], []⟩ :=
  ofSource_of_renders
    (reads_applied (Expr.text_starts hSpelled) (reads_core_truth e hSpelled h []))

/-! ## Statements -/

theorem Stmt.eval_eq_of_plain {s s' : Stmt} (h : s'.plain = s.plain)
    (hCore : ∀ e b, s = .expr e → e.core.plain ≠ .name (Truth.text b)) : s'.eval = s.eval := by
  cases s with
  | expr e =>
    cases s' with
    | expr e' =>
      rw [Stmt.plain, Stmt.plain, Stmt.expr.injEq] at h
      exact Expr.eval_eq_of_plain h fun b => hCore e b rfl
    | varDecl n value => cases value <;> cases h
    | _ => cases h
  | varDecl n value =>
    cases s' with
    | varDecl => rfl
    | _ => cases value <;> cases h
  | ret e =>
    cases s' with
    | ret => rfl
    | varDecl n value => cases value <;> cases h
    | _ => cases h
  | block body =>
    cases s' with
    | block => rfl
    | varDecl n value => cases value <;> cases h
    | _ => cases h

theorem Program.single_unique {program : Program} {s s' : Stmt} (h : program = ⟨[s], []⟩)
    (h' : program = ⟨[s'], []⟩) : s = s' := by
  rw [h, Program.mk.injEq, List.cons.injEq] at h'
  exact h'.1.1

theorem Stmt.plain_of_reread {s s' : Stmt} (hSpelled : s.isSpelled = true)
    (hRead : Program.ofSource .default s.text = ⟨[s'], []⟩) : s'.plain = s.plain := by
  obtain ⟨hExposed, hKeyword⟩ := Stmt.legible_of_clean hSpelled (congrArg Program.errors hRead)
  obtain ⟨again, hAgain, hPlain⟩ := s.reread_of_legible hSpelled hExposed hKeyword
  rw [Program.single_unique hRead hAgain, hPlain]

/-- What becomes of a statement that is printed and read again: two kinds of statements become
others, and every other statement keeps its value. -/
theorem Stmt.reread_cases {s s' : Stmt} (hSpelled : s.isSpelled = true)
    (hRead : Program.ofSource .default s.text = ⟨[s'], []⟩) :
    (∃ b, s = .expr (.name (Truth.text b)) ∧ s' = .expr (.bool b)) ∨
      (∃ op e b, s = .expr (.unary op e) ∧ e.core = .bool b ∧ s' = .expr (.unary op e.plain)) ∨
      ¬ s.IsTruthName ∧ ¬ s.IsAppliedTruth ∧ s'.eval = s.eval := by
  by_cases hTruth : ∃ e b, s = .expr e ∧ e.core.plain = .name (Truth.text b)
  · obtain ⟨e, b, rfl, hCore⟩ := hTruth
    cases e with
    | unary op e =>
      cases Program.single_unique hRead (ofSource_unary hSpelled hCore)
      rw [Expr.core] at hCore
      rcases Expr.core_of_plain hCore with ⟨c, hWord⟩ | hWord
      · exact Or.inr (Or.inl ⟨op, e, c, rfl, hWord, rfl⟩)
      · refine Or.inr (Or.inr ⟨?_, ?_, ?_⟩)
        · rintro ⟨_, ⟨⟩⟩
        · rintro ⟨op', e', c, hEq, hBool⟩
          cases hEq
          rw [hWord] at hBool
          cases hBool
        · have hPlain : e.plain.core = .name (Truth.text b) := by
            rw [e.core_plain, hCore]
          rw [Stmt.eval, Stmt.eval, Expr.eval_of_core_name (e := .unary op e) hWord,
            Expr.eval_of_core_name (e := .unary op e.plain) hPlain]
    | bool c =>
      cases Program.single_unique hRead (ofSource_truth c)
      refine Or.inr (Or.inr ⟨?_, ?_, rfl⟩)
      · rintro ⟨_, ⟨⟩⟩
      · rintro ⟨_, _, _, ⟨⟩, _⟩
    | name n =>
      cases hCore
      cases Program.single_unique hRead (ofSource_truth b)
      exact Or.inl ⟨b, rfl, rfl⟩
    | cond c body other => cases other <;> cases hCore
    | _ => cases hCore
  · refine Or.inr (Or.inr ⟨?_, ?_, ?_⟩)
    · rintro ⟨b, rfl⟩
      exact hTruth ⟨_, b, rfl, rfl⟩
    · rintro ⟨op, e, b, rfl, hCore⟩
      refine hTruth ⟨_, b, rfl, ?_⟩
      rw [Expr.core, hCore, Expr.plain]
    · refine Stmt.eval_eq_of_plain (Stmt.plain_of_reread hSpelled hRead) ?_
      intro e b hExpr hCore
      exact hTruth ⟨e, b, hExpr, hCore⟩

/-- A statement of a source that is printed and read again as one statement has the same value, or
is refused for the same reason, unless it is nothing but a name spelled like a truth value or
nothing but a truth value behind operators. The one becomes the truth value, and the word of the
other a name, which is refused. -/
theorem eval_reread_iff {source : String} {s s' : Stmt}
    (h : s ∈ (Program.ofSource .default source).statements)
    (hRead : Program.ofSource .default s.text = ⟨[s'], []⟩) :
    (s'.eval = s.eval ↔ ¬ s.IsTruthName ∧ ¬ s.IsAppliedTruth) ∧
      (∀ b, s = .expr (.name (Truth.text b)) → s'.eval = .ok (.bool b)) ∧
      (s.IsAppliedTruth → s'.eval = notEvaluable "identifier") := by
  rcases Stmt.reread_cases (isSpelled_of_mem_statements h) hRead with
    ⟨b, rfl, rfl⟩ | ⟨op, e, b, rfl, hCore, rfl⟩ | ⟨hName, hApplied, hSame⟩
  · refine ⟨⟨?_, ?_⟩, ?_, ?_⟩
    · rintro ⟨⟩
    · rintro ⟨hName, -⟩
      exact absurd ⟨b, rfl⟩ hName
    · intro c hEq
      rw [Stmt.expr.injEq, Expr.name.injEq, ← Truth.ofText?_eq_some_iff,
        Truth.ofText?_eq_some_iff.2 rfl, Option.some.injEq] at hEq
      rw [hEq]
      rfl
    · rintro ⟨_, _, _, ⟨⟩, _⟩
  · have hRefused : (Expr.unary op e.plain).eval = notEvaluable "identifier" := by
      apply Expr.eval_of_core_name (n := Truth.text b)
      rw [Expr.core, e.core_plain, hCore, Expr.plain]
    refine ⟨⟨?_, ?_⟩, ?_, fun _ => hRefused⟩
    · intro hSame
      have hLiteral : (Expr.unary op e).core.literal? = some (.bool b) := by
        rw [Expr.core, hCore]
        rfl
      rw [Stmt.eval, Stmt.eval, hRefused, Expr.eval_of_literal? hLiteral] at hSame
      cases hSame
    · rintro ⟨-, hApplied⟩
      exact absurd ⟨op, e, b, rfl, hCore⟩ hApplied
    · rintro _ ⟨⟩
  · refine ⟨⟨fun _ => ⟨hName, hApplied⟩, fun _ => hSame⟩, ?_, ?_⟩
    · intro b hEq
      exact absurd ⟨b, hEq⟩ hName
    · intro hIs
      exact absurd hIs hApplied

/-- The statement of `!-5;` has the text `(!(-5))`, which is read as the same statement. -/
theorem eval_reread_negated :
    ∃ s ∈ (Program.ofSource .default "!-5;").statements,
      ∃ s', Program.ofSource .default s.text = ⟨[s'], []⟩ ∧ s'.eval = s.eval := by
  have hMem : Stmt.expr (.unary .not (.unary .negate (.int 5))) ∈
      (Program.ofSource .default "!-5;").statements := by decide +kernel
  have hRead : Program.ofSource .default (Stmt.expr (.unary .not (.unary .negate (.int 5)))).text =
      ⟨[.expr (.unary .not (.unary .negate (.int 5)))], []⟩ := by
    show Program.mk (Program.ofSource .default _).statements
      (Program.ofSource .default _).errors = _
    rw [Program.mk.injEq]
    exact ⟨by decide +kernel, by decide +kernel⟩
  refine ⟨_, hMem, _, hRead, (eval_reread_iff hMem hRead).1.2 ⟨nofun, ?_⟩⟩
  rintro ⟨op, e, b, hEq, hCore⟩
  cases hEq
  cases hCore

/-- The text of the statement of `!true;` is read as a statement that has no value, and that of
`(true);`, which has none, as a truth value. -/
theorem not_eval_reread_true :
    ((Program.ofSource .default "!true;").errors = [] ∧
      ∃ s ∈ (Program.ofSource .default "!true;").statements,
        ∃ s', Program.ofSource .default s.text = ⟨[s'], []⟩ ∧ s'.eval ≠ s.eval) ∧
    (Program.ofSource .default "(true);").errors = [] ∧
      ∃ s ∈ (Program.ofSource .default "(true);").statements,
        ∃ s', Program.ofSource .default s.text = ⟨[s'], []⟩ ∧ s'.eval ≠ s.eval := by
  have hApplied : Stmt.expr (.unary .not (.bool true)) ∈
      (Program.ofSource .default "!true;").statements := by decide +kernel
  have hName : Stmt.expr (.name "true") ∈
      (Program.ofSource .default "(true);").statements := by decide +kernel
  constructor
  · refine ⟨by decide +kernel, _, hApplied, _, ofSource_unary (b := true) rfl rfl, ?_⟩
    nofun
  · refine ⟨by decide +kernel, _, hName, _, ofSource_truth true, ?_⟩
    nofun

end Frontend
