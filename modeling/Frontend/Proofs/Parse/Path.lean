import Frontend.Proofs.Parse.Call
import Frontend.Proofs.Parse.Likeness

/-!
# The path of a parse

Where a parse goes, and what it misses on the way, is decided by the keys of the tokens alone. The
text of a number, a truth value or a name decides at most whether an operand can be built, and an
operand that cannot be built does not change where the parse goes on.

* `Likeness.path`: the likeness of everything at the same index.
* `Likeness.shape`: the likeness of trees that differ only in their literals and names.
* `run_alike`: each call moves equally far over tokens of equal keys.
* `parse_alike`: the statement for whole parses.
-/

namespace Frontend

/-! ## Shapes -/

mutual

/-- The expression with all literals and names made equal. -/
def Expr.shape : Expr → Expr
  | .int _ => .int 0
  | .bool _ => .bool false
  | .name _ => .name ""
  | .unary op e => .unary op e.shape
  | .binary op l r => .binary op l.shape r.shape
  | .cond c body none => .cond c.shape (bodyShape body) none
  | .cond c body (some other) => .cond c.shape (bodyShape body) (some (bodyShape other))

/-- The statement with all literals and names made equal. -/
def Stmt.shape : Stmt → Stmt
  | .varDecl _ none => .varDecl "" none
  | .varDecl _ (some e) => .varDecl "" (some e.shape)
  | .ret e => .ret e.shape
  | .expr e => .expr e.shape
  | .block body => .block (bodyShape body)

/-- The statements with all literals and names made equal. -/
def bodyShape : List Stmt → List Stmt
  | [] => []
  | s :: rest => s.shape :: bodyShape rest

end

/-- A number or a truth value that can be read. Any other token has nothing to be read. -/
structure Token.Converts (t : Token) : Prop where
  number : t.tokenClass = .number → (Decimal.toInt64? t.lexeme).isSome = true
  truth : t.tokenClass = .boolean → (Truth.ofText? t.lexeme).isSome = true

instance (t : Token) : Decidable t.Converts :=
  decidable_of_iff ((t.tokenClass = .number → (Decimal.toInt64? t.lexeme).isSome = true) ∧
    (t.tokenClass = .boolean → (Truth.ofText? t.lexeme).isSome = true))
    ⟨fun h => ⟨h.1, h.2⟩, fun h => ⟨h.number, h.truth⟩⟩

/-- A fault of the structure, and not of the text of a number or a truth value. -/
def Fault.isStructural : Fault → Bool
  | .notInteger _ => false
  | .notTruth _ => false
  | _ => true

namespace Parse

variable {p q : Setting} {us us' ts ts' : List Token}

/-! ## Keys -/

theorem key_current (hp : p.IsStandard) (ts : List Token) :
    (p.current ts).key = (ts.map Token.key).headD (.tokenClass .endOfInput) := by
  cases ts with
  | nil => exact Token.key_of_isEnd hp.endMark
  | cons t rest => rfl

/-- Lists of equal keys have equal keys from every index on, and behind their ends. -/
theorem key_current_drop (hp : p.IsStandard) (hq : q.IsStandard)
    (hKeys : ts.map Token.key = ts'.map Token.key) (i : Nat) :
    (p.current (ts.drop i)).key = (q.current (ts'.drop i)).key := by
  rw [key_current hp, key_current hq, List.map_drop, List.map_drop, hKeys]

/-! ## The likeness of what stands at the same index -/

/-- Reports of the same fault about the tokens at the same index of two lists. -/
def AtSameIndex (p q : Setting) (us us' : List Token) (d d' : Diagnostic) : Prop :=
  ∃ (i : Nat) (f : Fault),
    d = faultAt (p.current (us.drop i)) (f.about (p.current (us.drop i)).describe) ∧
      d' = faultAt (q.current (us'.drop i)) (f.about (q.current (us'.drop i)).describe)

theorem structural_integer (t : Token) :
    (integer t).errors.filter (fun d => d.fault.isStructural) = [] := by
  unfold integer
  split <;> rfl

theorem structural_truth (t : Token) :
    (truth t).errors.filter (fun d => d.fault.isStructural) = [] := by
  unfold truth
  split <;> rfl

/-- Steps over the same number of tokens whose structural faults are at the same indices. -/
abbrev Abreast {α : Type} (p q : Setting) (us us' : List Token) (s s' : Step α) : Prop :=
  StepsAlike (AtSameIndex p q us us') Fault.isStructural (fun _ _ => True) s s'

theorem abreast_integer (t t' : Token) : Abreast p q us us' (integer t) (integer t') := by
  refine ⟨trivial, by rw [(builtOrFault_integer _).moved, (builtOrFault_integer _).moved], ?_⟩
  show List.Forall₂ _ _ _
  rw [structural_integer, structural_integer]
  exact .nil

theorem abreast_truth (t t' : Token) : Abreast p q us us' (truth t) (truth t') := by
  refine ⟨trivial, by rw [(builtOrFault_truth _).moved, (builtOrFault_truth _).moved], ?_⟩
  show List.Forall₂ _ _ _
  rw [structural_truth, structural_truth]
  exact .nil

theorem abreast_name (t t' : Token) : Abreast p q us us' (name t) (name t') :=
  ⟨trivial, rfl, .nil⟩

/-- Tokens are alike if they stand at the same index of two lists. Nothing is asked of trees. -/
def Likeness.path (p q : Setting) (us us' : List Token)
    (hKeys : ∀ i, (p.current (us.drop i)).key = (q.current (us'.drop i)).key) : Likeness where
  token t t' := ∃ i, t = p.current (us.drop i) ∧ t' = q.current (us'.drop i)
  report := AtSameIndex p q us us'
  counts := Fault.isStructural
  expr _ _ := True
  stmt _ _ := True
  body _ _ := True
  key := by
    rintro t t' ⟨i, rfl, rfl⟩
    exact hKeys i
  counts_about f s := by cases f <;> rfl
  fault := by
    rintro t t' ⟨i, rfl, rfl⟩ f
    exact ⟨i, f, rfl, rfl⟩
  integer _ _ := abreast_integer _ _
  truth _ _ := abreast_truth _ _
  name _ _ := abreast_name _ _
  exprNone := trivial
  unary _ _ := trivial
  binary _ _ _ := trivial
  cond _ _ := trivial
  condElse _ _ _ := trivial
  stmtNone := trivial
  exprStmt _ := trivial
  ret _ := trivial
  varDecl _ _ _ := trivial
  declaration _ _ := trivial
  bodyNil := trivial
  bodyCons _ _ := trivial

/-- What is built does not matter to two steps that go equally far. -/
theorem abreast_node {α : Type} {report : Diagnostic → Diagnostic → Prop} {counts : Fault → Bool}
    {s s' : Step α} {value : α → α → Prop} {r r' : Step (Option Node)}
    (h : StepsAlike report counts value s s') (hMoved : r.moved = s.moved)
    (hMoved' : r'.moved = s'.moved) (hErrors : r.errors = s.errors)
    (hErrors' : r'.errors = s'.errors) : StepsAlike report counts (fun _ _ => True) r r' :=
  ⟨trivial, by rw [hMoved, hMoved', h.moved], by rw [hErrors, hErrors']; exact h.errors⟩

/-- Operands of one token differ in two parses at most in whether they can be built. -/
theorem operand_abreast (hp : p.IsStandard) (hq : q.IsStandard)
    {hKeys : ∀ i, (p.current (us.drop i)).key = (q.current (us'.drop i)).key}
    (h : ∀ n, (Likeness.path p q us us' hKeys).Streams p q n ts ts') (rule : OperandRule) :
    Abreast p q us us' (operand p ts rule) (operand q ts' rule) := by
  cases rule with
  | integer =>
    rw [operand, operand]
    exact abreast_integer _ _
  | truth =>
    rw [operand, operand]
    exact abreast_truth _ _
  | name =>
    rw [operand, operand]
    exact abreast_name _ _
  | unary => exact Likeness.unary_at hp hq h
  | group => exact Likeness.group_at hp hq h
  | cond => exact Likeness.cond_at hp hq h

/-- From the same index on, lists of equal keys take every parsing function equally far, with
structural faults at the same indices, whatever else it is handed. -/
theorem run_alike (hp : p.IsStandard) (hq : q.IsStandard)
    (hKeys : us.map Token.key = us'.map Token.key) (i : Nat) {c c' : Call}
    (hCall : c.SameFunction c') :
    Abreast p q us us' (c.run p (us.drop i)) (c'.run q (us'.drop i)) := by
  let L := Likeness.path p q us us' (key_current_drop hp hq hKeys)
  have h : ∀ n, L.Streams p q n (us.drop i) (us'.drop i) := by
    intro n k _
    refine ⟨i + k, ?_, ?_⟩ <;> rw [List.drop_drop]
  cases hCall with
  | expression floor =>
    exact abreast_node (Likeness.expression_at hp hq h floor) rfl rfl rfl rfl
  | operators floor left left' =>
    exact abreast_node ((L.holdsAt hp hq _).operators floor left _ left' (h _) trivial)
      rfl rfl rfl rfl
  | binary floor left left' =>
    exact abreast_node (Likeness.binary_at hp hq h left left' trivial floor) rfl rfl rfl rfl
  | operand rule => exact abreast_node (operand_abreast hp hq h rule) rfl rfl rfl rfl
  | branches condition condition' =>
    exact abreast_node ((L.holdsAt hp hq _).branches condition _ condition' (h _) trivial)
      rfl rfl rfl rfl
  | otherwise condition body condition' body' =>
    exact abreast_node
      ((L.holdsAt hp hq _).otherwise condition body _ condition' body' (h _) trivial trivial)
      rfl rfl rfl rfl
  | block => exact abreast_node (Likeness.block_at hp hq h) rfl rfl rfl rfl
  | statements inBlock =>
    exact abreast_node (Likeness.statements_at hp hq h inBlock) rfl rfl rfl rfl
  | statement => exact abreast_node ((L.holdsAt hp hq _).statement _ (h _)) rfl rfl rfl rfl
  | construct rule =>
    cases rule with
    | varDecl => exact abreast_node (Likeness.varDecl_at hp hq h) rfl rfl rfl rfl
    | ret => exact abreast_node (Likeness.ret_at hp hq h) rfl rfl rfl rfl
    | expr => exact abreast_node (Likeness.expressionStmt_at hp hq h) rfl rfl rfl rfl

/-! ## The likeness of shapes -/

theorem shape_combine {op : BinaryOp} (l r : Option Expr) :
    (combine op l r).map Expr.shape = combine op (l.map Expr.shape) (r.map Expr.shape) := by
  cases l <;> cases r <;> rfl

theorem exists_eq_of_map_shape {v v' : Option Expr} (h : v.map Expr.shape = v'.map Expr.shape) :
    v = none ∧ v' = none ∨ ∃ e e', v = some e ∧ v' = some e' ∧ e.shape = e'.shape := by
  cases v with
  | none =>
    cases v' with
    | none => exact Or.inl ⟨rfl, rfl⟩
    | some e' => cases h
  | some e =>
    cases v' with
    | none => cases h
    | some e' => exact Or.inr ⟨e, e', rfl, rfl, Option.some.inj h⟩

/-- Trees are alike if they have the same shape, tokens if they have the same key and what is to be
read in them can be read. Reports do not matter. -/
def Likeness.shape : Likeness where
  token t t' := t.key = t'.key ∧ t.Converts ∧ t'.Converts
  report _ _ := True
  counts _ := false
  expr v v' := v.map Expr.shape = v'.map Expr.shape
  stmt v v' := v.map Stmt.shape = v'.map Stmt.shape
  body b b' := bodyShape b = bodyShape b'
  key h := h.1
  counts_about _ _ := rfl
  fault _ _ := trivial
  integer := by
    rintro t t' ⟨hKey, hConverts, hConverts'⟩ hClass
    have hClass' : t'.tokenClass = .number :=
      tokenClass_of_key hKey hClass fun s => s.tokenClass_ne.1
    obtain ⟨v, hValue⟩ := Option.isSome_iff_exists.1 (hConverts.number hClass)
    obtain ⟨v', hValue'⟩ := Option.isSome_iff_exists.1 (hConverts'.number hClass')
    unfold Parse.integer
    rw [hValue, hValue']
    exact ⟨rfl, rfl, .nil⟩
  truth := by
    rintro t t' ⟨hKey, hConverts, hConverts'⟩ hClass
    have hClass' : t'.tokenClass = .boolean :=
      tokenClass_of_key hKey hClass fun s => s.tokenClass_ne.2.1
    obtain ⟨v, hValue⟩ := Option.isSome_iff_exists.1 (hConverts.truth hClass)
    obtain ⟨v', hValue'⟩ := Option.isSome_iff_exists.1 (hConverts'.truth hClass')
    unfold Parse.truth
    rw [hValue, hValue']
    exact ⟨rfl, rfl, .nil⟩
  name _ _ := ⟨rfl, rfl, .nil⟩
  exprNone := rfl
  unary op h := by
    rcases exists_eq_of_map_shape h with ⟨rfl, rfl⟩ | ⟨e, e', rfl, rfl, hShape⟩
    · rfl
    · simp [Expr.shape, hShape]
  binary op hLeft hRight := by rw [shape_combine, shape_combine, hLeft, hRight]
  cond h hBody := by
    rcases exists_eq_of_map_shape h with ⟨rfl, rfl⟩ | ⟨e, e', rfl, rfl, hShape⟩
    · rfl
    · simp [Expr.shape, hShape, hBody]
  condElse h hBody hOther := by
    rcases exists_eq_of_map_shape h with ⟨rfl, rfl⟩ | ⟨e, e', rfl, rfl, hShape⟩
    · rfl
    · simp [Expr.shape, hShape, hBody, hOther]
  stmtNone := rfl
  exprStmt h := by
    rcases exists_eq_of_map_shape h with ⟨rfl, rfl⟩ | ⟨e, e', rfl, rfl, hShape⟩
    · rfl
    · simp [Stmt.shape, hShape]
  ret h := by
    rcases exists_eq_of_map_shape h with ⟨rfl, rfl⟩ | ⟨e, e', rfl, rfl, hShape⟩
    · rfl
    · simp [Stmt.shape, hShape]
  varDecl _ _ h := by
    rcases exists_eq_of_map_shape h with ⟨rfl, rfl⟩ | ⟨e, e', rfl, rfl, hShape⟩
    · rfl
    · simp [Stmt.shape, hShape]
  declaration _ _ := rfl
  bodyNil := rfl
  bodyCons := by
    intro s s' b b' hOne hBody
    cases s <;> cases s' <;> simp_all [bodyShape]

theorem converts_of_isEnd {t : Token} (h : t.isEnd = true) : t.Converts := by
  have hClass : t.tokenClass = .endOfInput := by simpa [Token.isEnd] using h
  constructor <;>
  · intro hOther
    rw [hClass] at hOther
    cases hOther

theorem converts_current_drop (hp : p.IsStandard) (h : ∀ t ∈ ts, t.Converts) (i : Nat) :
    (p.current (ts.drop i)).Converts := by
  cases hDrop : ts.drop i with
  | nil => exact converts_of_isEnd hp.endMark
  | cons t rest =>
    apply h
    apply List.mem_of_mem_drop (i := i)
    rw [hDrop]
    exact List.mem_cons_self

/-! ## Whole parses -/

/-- Two token lists with the same keys at all indices. Every parsing function that is called from
the same index moves equally far in both, and apart from the literals that cannot be read it reports
the same faults at the same indices, in the same order; so does the parse of the whole lists, which
is the call of the statements from the first index on. If all literals of both lists can be read,
the programs have the same shape. -/
theorem parse_alike (hKeys : ts.map Token.key = ts'.map Token.key) :
    (∀ (i : Nat) (c c' : Call), c.SameFunction c' →
      (c.run (.ofTokens ts) (ts.drop i)).moved = (c'.run (.ofTokens ts') (ts'.drop i)).moved ∧
        List.Forall₂ (AtSameIndex (.ofTokens ts) (.ofTokens ts') ts ts')
          ((c.run (.ofTokens ts) (ts.drop i)).errors.filter fun d => d.fault.isStructural)
          ((c'.run (.ofTokens ts') (ts'.drop i)).errors.filter fun d => d.fault.isStructural)) ∧
    ((∀ t ∈ ts, t.Converts) → (∀ t ∈ ts', t.Converts) →
      bodyShape (Program.parse ts).statements = bodyShape (Program.parse ts').statements) := by
  have hp := isStandard_ofTokens ts
  have hq := isStandard_ofTokens ts'
  constructor
  · intro i c c' hCall
    have hSteps := run_alike hp hq hKeys i hCall
    exact ⟨hSteps.moved, hSteps.errors⟩
  · intro hConverts hConverts'
    have hStreams : ∀ n, Likeness.shape.Streams (.ofTokens ts) (.ofTokens ts') n ts ts' := by
      intro n i _
      exact ⟨key_current_drop hp hq hKeys i, converts_current_drop hp hConverts i,
        converts_current_drop hq hConverts' i⟩
    exact (Likeness.statements_at hp hq hStreams false).value

/-- Statements one of which lacks its name. -/
def renamed : List Token :=
  Reading.default.tokens "var x = 7 + y;  var 2; if (false) { return z ; }"

/-- The same statements with a number above the limit. -/
def outOfRange : List Token :=
  Reading.default.tokens "var a = 99999999999999999999 + b; var 1; if (true) {return c;}"

/-- The same statements with other literals and names, all of which can be read. -/
def inRange : List Token :=
  Reading.default.tokens "var a = 1 + b; var 1; if (true) {return c;}"

theorem parse_alike_renamed :
    (outOfRange.map Token.key = renamed.map Token.key ∧
      (statements (.ofTokens outOfRange) outOfRange false).moved =
        (statements (.ofTokens renamed) renamed false).moved) ∧
    inRange.map Token.key = renamed.map Token.key ∧ (∀ t ∈ inRange, t.Converts) ∧
      (∀ t ∈ renamed, t.Converts) ∧
      bodyShape (Program.parse inRange).statements = bodyShape (Program.parse renamed).statements :=
  have hOut : outOfRange.map Token.key = renamed.map Token.key := by decide +kernel
  have hIn : inRange.map Token.key = renamed.map Token.key := by decide +kernel
  have hInRange : ∀ t ∈ inRange, t.Converts := by decide +kernel
  have hRenamed : ∀ t ∈ renamed, t.Converts := by decide +kernel
  ⟨⟨hOut, ((parse_alike hOut).1 0 _ _ (.statements false)).1⟩, hIn, hInRange, hRenamed,
    (parse_alike hIn).2 hInRange hRenamed⟩

end Parse
end Frontend
