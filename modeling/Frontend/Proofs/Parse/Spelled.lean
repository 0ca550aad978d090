import Frontend.Proofs.Parse.Contract
import Frontend.Proofs.Token.Break
import Frontend.Proofs.Tree.Spelling
import Frontend.Token.Stream

/-!
# What is parsed from a source is spelled

A token that is read from a source is a word if it is a name, and has no sign if it is a number. So
every tree that is parsed from such tokens is spelled, reports or not.

* `isSpelled_of_mem_tokens`: the tokens of a source.
* `spelled_respected`: each way to a tree keeps to what the tokens spell.
* `isSpelled_of_mem_statements`: the statements parsed from a source.
-/

namespace Frontend

open Rule (isWordChar run?)

/-- A source can spell the token. -/
structure Token.IsSpelled (t : Token) : Prop where
  name : t.tokenClass = .identifier → isWord t.lexeme = true
  number : t.tokenClass = .number → ∀ v ∈ Decimal.toInt64? t.lexeme, 0 ≤ v

/-! ## Tokens of a source -/

/-- A number that is read from a text without a sign is not negative. -/
theorem Decimal.toInt64?_nonneg {text : String} {v : Int64} (h : toInt64? text = some v)
    (hSign : ∀ c ∈ text.toList.head?, c ≠ '-') : 0 ≤ v := by
  obtain ⟨z, hRead, hRange⟩ := Option.bind_eq_some_iff.1 h
  have hPos : 0 ≤ z := by
    unfold toInt? at hRead
    split at hRead
    · rename_i ds hText
      exact absurd rfl (hSign '-' (by rw [hText]; rfl))
    · obtain ⟨n, -, rfl⟩ := Option.map_eq_some_iff.1 hRead
      exact Int.natCast_nonneg n
    · obtain ⟨n, -, rfl⟩ := Option.map_eq_some_iff.1 hRead
      exact Int.natCast_nonneg n
  split at hRange
  · rename_i hBounds
    cases hRange
    rw [Int64.le_iff_toInt_le, Int64.toInt_ofInt_of_le (by simpa using hBounds.1)
      (Int.lt_of_le_of_lt hBounds.2 (by decide))]
    exact hPos
  · cases hRange

/-- The rule for words stands behind the rule for digits, so that it accepts no digit in front. -/
theorem isWord_of_classify {text lexeme : List Char}
    (h : classify text = some (.identifier, lexeme)) : isWord (String.ofList lexeme) = true := by
  obtain ⟨before, rule, after, hAll, hFind, hBefore⟩ := List.findSome?_eq_some_iff.1 h
  obtain ⟨found, hFound, hPair⟩ := Option.map_eq_some_iff.1 hFind
  have hClass : rule.tokenClass = .identifier := congrArg Prod.fst hPair
  have hLexeme : found = lexeme := congrArg Prod.snd hPair
  have hRule : rule = .word := by
    cases rule with
    | word => rfl
    | keyword s => exact absurd hClass s.tokenClass_ne.2.2.1
    | mark s => exact absurd hClass s.tokenClass_ne.2.2.1
    | _ => cases hClass
  subst hRule hLexeme
  have hDigits : Rule.digits ∈ before := by
    have hOthers : ∀ earlier ∈ before, decide (earlier ≠ Rule.word) = true := by
      intro earlier hMem
      refine decide_eq_true fun hWord => ?_
      rw [hWord] at hMem
      rw [hBefore .word hMem] at hFind
      cases hFind
    have hTaken : Rule.all.takeWhile (fun rule => decide (rule ≠ .word)) = before := by
      rw [hAll, List.takeWhile_append_of_pos hOthers, List.takeWhile_cons_of_neg (by decide),
        List.append_nil]
    rw [← hTaken]
    decide
  have hNone : run? Char.isDigit text = none := Option.map_eq_none_iff.1 (hBefore .digits hDigits)
  obtain ⟨hRun, hText⟩ := Rule.run?_eq_some_iff.1 hFound
  rw [isWord_iff, String.toList_ofList]
  refine ⟨hText, ?_, ?_⟩
  · rw [hRun]
    exact List.all_eq_true.1 List.all_takeWhile
  · cases text with
    | nil => exact absurd hRun hText
    | cons c tail =>
      intro d hHead
      have hFirst : d = c := by
        rw [hRun] at hHead
        by_cases hWord : isWordChar c = true
        · rw [List.takeWhile_cons_of_pos hWord] at hHead
          exact (Option.some.inj hHead).symm
        · rw [List.takeWhile_cons_of_neg hWord] at hHead
          cases hHead
      rw [hFirst]
      refine Bool.eq_false_iff.2 fun hDigit => ?_
      rw [run?, List.takeWhile_cons_of_pos hDigit] at hNone
      cases hNone

/-- A number begins with a digit. -/
theorem head_of_classify_number {text lexeme : List Char}
    (h : classify text = some (.number, lexeme)) : ∀ c ∈ lexeme.head?, c.isDigit = true := by
  obtain ⟨whole, tail, rfl, hText, hDigits, -⟩ := exists_digits_of_classify h
  obtain ⟨d, more, rfl⟩ := List.exists_cons_of_ne_nil hText
  rintro _ ⟨⟩
  exact hDigits d List.mem_cons_self

theorem isSpelled_of_classify {text : List Char} {t : Token}
    (h : classify text = some (t.tokenClass, t.lexeme.toList)) : t.IsSpelled := by
  constructor
  · intro hClass
    rw [hClass] at h
    simpa using isWord_of_classify h
  · intro hClass v hRead
    rw [hClass] at h
    refine Decimal.toInt64?_nonneg hRead ?_
    rintro c hHead rfl
    exact absurd (head_of_classify_number h _ hHead) (by decide)

theorem isSpelled_of_mem_tokensOf (r : Reading) (offset : Nat) (text : List Char) :
    ∀ t ∈ r.tokensOf offset (Piece.scan text), t.IsSpelled := by
  intro t hMem
  rcases classify_of_mem_tokensOf hMem with hEnd | ⟨behind, hFound⟩
  · constructor
    · intro hName
      cases hEnd.symm.trans hName
    · intro hNumber
      cases hEnd.symm.trans hNumber
  · exact isSpelled_of_classify hFound

/-- A source can spell its tokens. -/
theorem isSpelled_of_mem_tokens (r : Reading) (source : String) :
    ∀ t ∈ r.tokens source, t.IsSpelled :=
  isSpelled_of_mem_tokensOf r 0 source.toList

namespace Parse

/-! ## Trees -/

/-- A source can spell all the tokens. -/
def AllSpelled (ts : List Token) : Prop :=
  ∀ t ∈ ts, t.IsSpelled

/-- What is built from spelled tokens is spelled, if anything is built. -/
def Spells {α : Type} (isSpelled : α → Bool) (ts : List Token) (s : Step (Option α)) : Prop :=
  AllSpelled ts → ∀ v ∈ s.value, isSpelled v = true

/-- What is built from spelled tokens and from a spelled part, if there is one, is spelled. -/
def SpellsFrom (part : Option Expr) (ts : List Token) (s : Step (Option Expr)) : Prop :=
  (∀ e ∈ part, e.isSpelled = true) → Spells Expr.isSpelled ts s

/-- From spelled tokens each parsing function builds spelled trees. -/
def spelled : Contract where
  expression ts _ s := Spells Expr.isSpelled ts s
  operators ts _ left s := SpellsFrom left ts s
  operand ts s := Spells Expr.isSpelled ts s
  branches ts condition s := SpellsFrom condition ts s
  otherwise ts condition body s := bodyIsSpelled body = true → SpellsFrom condition ts s
  block ts s := AllSpelled ts → bodyIsSpelled s.value = true
  statements ts _ s := AllSpelled ts → bodyIsSpelled s.value = true
  statement ts s := Spells Stmt.isSpelled ts s

variable {p : Setting} {t : Token} {ts rest : List Token}

theorem AllSpelled.head (h : AllSpelled (t :: rest)) : t.IsSpelled :=
  h t List.mem_cons_self

theorem AllSpelled.tail (h : AllSpelled (t :: rest)) : AllSpelled rest :=
  fun u hMem => h u (List.mem_cons_of_mem t hMem)

theorem AllSpelled.drop (h : AllSpelled ts) (k : Nat) : AllSpelled (ts.drop k) :=
  fun u hMem => h u (List.mem_of_mem_drop hMem)

theorem spells_fail {α : Type} {isSpelled : α → Bool} {s : Step (Option α)}
    (h : s.value = none) : Spells isSpelled ts s := by
  intro _ v hMem
  rw [h] at hMem
  cases hMem

theorem spells_integer (hClass : t.tokenClass = .number) :
    Spells Expr.isSpelled (t :: rest) (integer t) := by
  intro hTokens v hMem
  unfold integer at hMem
  split at hMem
  · rename_i z hRead
    cases hMem
    exact decide_eq_true (hTokens.head.number hClass z hRead)
  · cases hMem

theorem spells_truth : Spells Expr.isSpelled (t :: rest) (truth t) := by
  intro _ v hMem
  unfold truth at hMem
  split at hMem <;> cases hMem
  rfl

theorem spells_name (hClass : t.tokenClass = .identifier) :
    Spells Expr.isSpelled (t :: rest) (name t) := by
  intro hTokens v hMem
  cases hMem
  exact hTokens.head.name hClass

theorem Spells.closing {α : Type} {isSpelled : α → Bool} {part : Step (Option α)}
    (h : Spells isSpelled ts part) (s : Symbol) (fault : String → Fault) :
    Spells isSpelled ts (closing p s fault ts part) :=
  fun hTokens v hMem => h hTokens v (value_of_closing hMem)

/-- What is built around a spelled tree is spelled. -/
theorem Spells.around {α β : Type} {ofPart : α → Bool} {ofWhole : β → Bool}
    {part : Step (Option α)} {f : α → β} {us : List Token} {k : Nat} {errors : List Diagnostic}
    (h : Spells ofPart us part) (hTokens : AllSpelled ts → AllSpelled us)
    (hf : AllSpelled ts → ∀ v, ofPart v = true → ofWhole (f v) = true) :
    Spells ofWhole ts ⟨part.value.map f, k, errors⟩ := by
  intro hAll v hMem
  obtain ⟨u, hPart, rfl⟩ := Option.map_eq_some_iff.1 hMem
  exact hf hAll u (h (hTokens hAll) u hPart)

theorem spellsFrom_fold {head : Token} {op : BinaryOp} {left : Option Expr}
    {right s : Step (Option Expr)} (hRight : Spells Expr.isSpelled rest right)
    (hRest : SpellsFrom (combine op left right.value) (rest.drop right.moved) s) (k : Nat) :
    SpellsFrom left (head :: t :: rest) (s.after k right.errors) := by
  intro hLeft hTokens
  refine hRest ?_ (hTokens.tail.tail.drop _)
  intro e hMem
  obtain ⟨l, r, hValueL, hValueR, rfl⟩ := combine_eq_some_iff.1 hMem
  rw [Expr.isSpelled, hLeft l hValueL, hRight hTokens.tail.tail r hValueR]
  rfl

theorem bodyIsSpelled_append (body other : List Stmt) :
    bodyIsSpelled (body ++ other) = (bodyIsSpelled body && bodyIsSpelled other) := by
  induction body with
  | nil => rw [List.nil_append, bodyIsSpelled, Bool.true_and]
  | cons s rest ih => rw [List.cons_append, bodyIsSpelled, bodyIsSpelled, ih, Bool.and_assoc]

theorem bodyIsSpelled_toList {value : Option Stmt} (h : ∀ s ∈ value, s.isSpelled = true) :
    bodyIsSpelled value.toList = true := by
  cases value with
  | none => rfl
  | some s => rw [Option.toList_some, bodyIsSpelled, h s rfl, bodyIsSpelled, Bool.and_true]

/-- Every way to a tree keeps to what the tokens spell. -/
theorem spelled_respected (p : Setting) : spelled.Respected p where
  noOperand _ := spells_fail rfl
  opened _ hFirst hRest := fun hTokens => hRest (hFirst hTokens) (hTokens.drop _)
  stop _ := fun hLeft _ => hLeft
  fold _ _ hRight hRest := spellsFrom_fold hRight hRest _
  integer hClass := spells_integer hClass
  truth _ := spells_truth
  name hClass := spells_name hClass
  unary _ hOperand := hOperand.around AllSpelled.tail (by exact fun _ _ h => h)
  group _ hInner := fun hTokens => hInner.closing _ _ hTokens.tail
  cond _ _ hCondition hRest := fun hTokens =>
    hRest (hCondition hTokens.tail) (hTokens.tail.drop _)
  condUnopened _ _ := spells_fail rfl
  branches _ _ hBody hRest := fun hCondition hTokens =>
    hRest (hBody hTokens.tail) hCondition (hTokens.tail.drop _)
  branchesUnclosed _ := fun _ => spells_fail rfl
  branchesUnopened _ _ := fun _ => spells_fail rfl
  otherwiseNone _ := by
    intro hBody hCondition _ v hMem
    obtain ⟨c, hValue, rfl⟩ := Option.map_eq_some_iff.1 hMem
    rw [Expr.isSpelled, hCondition c hValue, hBody]
    rfl
  otherwise _ _ hOther := by
    intro hBody hCondition hTokens v hMem
    obtain ⟨c, hValue, rfl⟩ := Option.map_eq_some_iff.1 hMem
    rw [Expr.isSpelled, hCondition c hValue, hBody, hOther hTokens.tail.tail]
    rfl
  otherwiseUnopened _ _ := fun _ _ => spells_fail rfl
  block _ hBody := fun hTokens => hBody hTokens.tail
  ends _ := fun _ => rfl
  next _ hOne hRest := by
    intro hTokens
    rw [bodyIsSpelled_append, hRest (hTokens.tail.drop _), Bool.and_true]
    exact bodyIsSpelled_toList (hOne hTokens)
  expressionStmt _ _ hExpr := hExpr.around id (by exact fun _ _ h => h)
  ret _ hExpr := (hExpr.closing _ _).around AllSpelled.tail (by exact fun _ _ h => h)
  varDecl _ hName _ hExpr := by
    refine (hExpr.closing _ _).around (fun hTokens => hTokens.tail.tail.tail) ?_
    intro hTokens v hValue
    rw [Stmt.isSpelled, hTokens.tail.head.name hName, hValue]
    rfl
  varDeclNone _ hName _ := by
    intro hTokens v hMem
    cases hMem
    exact hTokens.tail.head.name hName
  varDeclUnnamed _ _ := spells_fail rfl
  varDeclUnassigned _ _ _ _ := spells_fail rfl

end Parse

theorem isSpelled_of_mem {body : List Stmt} (h : bodyIsSpelled body = true) {s : Stmt}
    (hMem : s ∈ body) : s.isSpelled = true := by
  induction body with
  | nil => cases hMem
  | cons first rest ih =>
    rw [bodyIsSpelled, Bool.and_eq_true] at h
    rcases List.mem_cons.1 hMem with rfl | hRest
    · exact h.1
    · exact ih h.2 hRest

/-- The statements that are parsed from a source are spelled. -/
theorem isSpelled_of_mem_statements {source : String} {s : Stmt}
    (h : s ∈ (Program.ofSource .default source).statements) : s.isSpelled = true := by
  have hHolds := Parse.Contract.holdsAt (Parse.spelled_respected _)
    (Parse.isStandard_ofTokens (Reading.default.tokens source)) (Reading.default.tokens source)
  exact isSpelled_of_mem (hHolds.statements false (isSpelled_of_mem_tokens .default source)) h

end Frontend
