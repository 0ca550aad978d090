import Frontend.Parse.Step
import Frontend.Tree.Basic
import Frontend.Truth

/-!
# The parser

Expressions are parsed by binding powers: an operand, then every operator that binds more tightly
than a given floor, whose right operand is parsed with the power of the operator as its floor. So
operators of equal power group to the left. Every function starts on the first token of its
construct and ends on the last one; the loop over statements steps past it.

A construct that fails still moves as far as it was read. What follows is parsed from there on, and
whatever else is missing is reported too. A failed operand never changes where the parse goes on.

Each function calls only functions of a lower rank on the same tokens, and any function on fewer
tokens. That is what `work` measures, and why every parse ends.
-/

namespace Frontend.Parse

/-! ## Operands of one token -/

def integer (t : Token) : Step (Option Expr) :=
  match Decimal.toInt64? t.lexeme with
  | some v => .stay (some (.int v))
  | none => fail t (.notInteger t.lexeme)

def truth (t : Token) : Step (Option Expr) :=
  match Truth.ofText? t.lexeme with
  | some b => .stay (some (.bool b))
  | none => fail t (.notTruth t.lexeme)

def name (t : Token) : Step (Option Expr) :=
  .stay (some (.name t.lexeme))

/-- An operand behind the end of the list. The mark that is seen there begins no construct of more
than one token. -/
def operandAtEnd (p : Setting) : Step (Option Expr) :=
  match p.grammar.operands.get? p.endMark.key with
  | some .integer => integer p.endMark
  | some .truth => truth p.endMark
  | some .name => name p.endMark
  | some .cond => fail p.endMark (.missingOpeningParen "if expression" p.endMark.describe)
  | _ => fail p.endMark (.noOperand p.endMark.describe)

/-! ## The order of the calls -/

/-- How much is left to do for a function of the given rank that starts on the tokens. -/
def work (rank : Nat) (ts : List Token) : Nat :=
  9 * ts.length + rank

theorem work_lt_of_rank {i j : Nat} (ts : List Token) (h : i < j) : work i ts < work j ts := by
  unfold work
  omega

theorem work_drop_lt {i j : Nat} (k : Nat) (ts : List Token) (h : i < j) :
    work i (ts.drop k) < work j ts := by
  unfold work
  simp only [List.length_drop]
  omega

theorem work_tail_lt {i : Nat} (j : Nat) (t : Token) (rest : List Token) (h : i < 9) :
    work i rest < work j (t :: rest) := by
  unfold work
  simp only [List.length_cons]
  omega

theorem work_drop_tail_lt {i : Nat} (j k : Nat) (t : Token) (rest : List Token) (h : i < 9) :
    work i (rest.drop k) < work j (t :: rest) := by
  unfold work
  simp only [List.length_drop, List.length_cons]
  omega

/-! ## Expressions and statements -/

variable (p : Setting)

mutual

/-- An expression whose operators all bind more tightly than the floor. -/
def expression (ts : List Token) (floor : BindingPower) : Step (Option Expr) :=
  match ts with
  | [] => operandAtEnd p
  | t :: rest =>
    match p.grammar.operands.get? t.key with
    | none => fail t (.noOperand t.describe)
    | some rule =>
      let first := operand (t :: rest) rule
      (operators ((t :: rest).drop first.moved) floor first.value).after first.moved first.errors
termination_by work 2 ts
decreasing_by
  · exact work_lt_of_rank _ (by decide)
  · exact work_drop_lt _ _ (by decide)

/-- The operators behind a left operand, as far as they bind more tightly than the floor. Each takes
what is built so far as its left operand. Starts on the last token of the operand. -/
def operators (ts : List Token) (floor : BindingPower) (left : Option Expr) : Step (Option Expr) :=
  match ts with
  | [] => .stay left
  | [_] => .stay left
  | _ :: op :: rest =>
    if ¬ op.is .semicolon ∧ floor < p.grammar.power op then
      match p.grammar.operators.get? op.key with
      | none => .stay left
      | some .binary =>
        let folded := binary (op :: rest) left (p.grammar.power op)
        (operators ((op :: rest).drop folded.moved) floor folded.value).after
          (1 + folded.moved) folded.errors
    else .stay left
termination_by work 0 ts
decreasing_by
  · exact work_tail_lt _ _ _ (by decide)
  · exact work_drop_tail_lt _ _ _ _ (by decide)

/-- An operator and its right operand, whose floor is given. Starts on the operator. -/
def binary (ts : List Token) (left : Option Expr) (floor : BindingPower) : Step (Option Expr) :=
  match ts with
  | [] => fail p.endMark (.unexpectedToken p.endMark.describe)
  | t :: rest =>
    match t.symbol?.bind BinaryOp.ofSymbol? with
    | none => fail t (.unexpectedToken t.describe)
    | some op =>
      let right := expression rest floor
      Step.after ⟨left.bind fun l => right.value.map fun r => .binary op l r, right.moved,
        right.errors⟩ 1 []
termination_by work 0 ts
decreasing_by
  exact work_tail_lt _ _ _ (by decide)

/-- The operand that begins at the place. -/
def operand (ts : List Token) (rule : OperandRule) : Step (Option Expr) :=
  match rule with
  | .integer => integer (p.current ts)
  | .truth => truth (p.current ts)
  | .name => name (p.current ts)
  | .unary => unary ts
  | .group => group ts
  | .cond => cond ts
termination_by work 1 ts
decreasing_by
  all_goals exact work_lt_of_rank _ (by decide)

/-- An operator in front of its operand. -/
def unary (ts : List Token) : Step (Option Expr) :=
  match ts with
  | [] => fail p.endMark (.noOperand p.endMark.describe)
  | t :: rest =>
    match t.symbol?.bind UnaryOp.ofSymbol? with
    | none => fail t (.noOperand t.describe)
    | some op => ((expression rest .unary).build (.unary op)).after 1 []
termination_by work 0 ts
decreasing_by
  exact work_tail_lt _ _ _ (by decide)

/-- An expression in parentheses. -/
def group (ts : List Token) : Step (Option Expr) :=
  match ts with
  | [] => (closing p .closeParen (.missingClosingParen "grouped expression") []
      (operandAtEnd p)).after 1 []
  | _ :: rest => (closing p .closeParen (.missingClosingParen "grouped expression") rest
      (expression rest .lowest)).after 1 []
termination_by work 0 ts
decreasing_by
  exact work_tail_lt _ _ _ (by decide)

/-- A conditional: `if`, a condition in parentheses, a block, and possibly `else` and a block. The
condition is read together with its parentheses, as an expression in parentheses. -/
def cond (ts : List Token) : Step (Option Expr) :=
  match ts with
  | [] => fail p.endMark (.missingOpeningParen "if expression" p.endMark.describe)
  | _ :: rest =>
    let opening := p.current rest
    if opening.is .openParen then
      let condition := expression rest .lowest
      (branches (rest.drop condition.moved) condition.value).after
        (1 + condition.moved) condition.errors
    else fail opening (.missingOpeningParen "if expression" opening.describe)
termination_by work 0 ts
decreasing_by
  · exact work_tail_lt _ _ _ (by decide)
  · exact work_drop_tail_lt _ _ _ _ (by decide)

/-- The blocks of a conditional. Starts on the last token of the condition. -/
def branches (ts : List Token) (condition : Option Expr) : Step (Option Expr) :=
  let close := p.current ts
  let opening := p.next ts
  if close.is .closeParen then
    if opening.is .openCurly then
      let body := block (ts.drop 1)
      (otherwise (ts.drop (1 + body.moved)) condition body.value).after (1 + body.moved) body.errors
    else (fail opening (.missingOpeningCurly "if expression" opening.describe)).after 1 []
  else fail close (.missingClosingParen "if expression" close.describe)
termination_by work 8 ts
decreasing_by
  all_goals exact work_drop_lt _ _ (by decide)

/-- The second block of a conditional, if there is one. Starts on the last token of the first. -/
def otherwise (ts : List Token) (condition : Option Expr) (body : List Stmt) :
    Step (Option Expr) :=
  let opening := p.next (ts.drop 1)
  if (p.next ts).is .elseWord then
    if opening.is .openCurly then
      let other := block (ts.drop 2)
      Step.after ⟨condition.map fun c => .cond c body (some other.value), other.moved,
        other.errors⟩ 2 []
    else (fail opening (.missingOpeningCurly "else expression" opening.describe)).after 1 []
  else .stay (condition.map fun c => .cond c body none)
termination_by work 7 ts
decreasing_by
  exact work_drop_lt _ _ (by decide)

/-- The statements in curly braces. The closing brace may be missing at the end of the input. -/
def block (ts : List Token) : Step (List Stmt) :=
  (statements (ts.drop 1) true).after 1 []
termination_by work 6 ts
decreasing_by
  exact work_drop_lt _ _ (by decide)

/-- The statements up to the end of the input or, within a block, up to a closing brace. Those that
fail are left out. -/
def statements (ts : List Token) (inBlock : Bool) : Step (List Stmt) :=
  match ts with
  | [] => .stay []
  | t :: rest =>
    if t.isEnd ∨ inBlock ∧ t.is .closeCurly then .stay []
    else
      let one := statement (t :: rest)
      let others := statements (rest.drop one.moved) inBlock
      Step.after ⟨one.value.toList ++ others.value, others.moved, others.errors⟩
        (one.moved + 1) one.errors
termination_by work 5 ts
decreasing_by
  · exact work_lt_of_rank _ (by decide)
  · exact work_drop_tail_lt _ _ _ _ (by decide)

/-- The statement that begins at the place. -/
def statement (ts : List Token) : Step (Option Stmt) :=
  match p.grammar.statements.get? (p.current ts).key with
  | some .varDecl => varDecl ts
  | some .ret => ret ts
  | some .expr => expressionStmt ts
  | none => expressionStmt ts
termination_by work 4 ts
decreasing_by
  all_goals exact work_lt_of_rank _ (by decide)

/-- A declaration: `var`, a name, and either `;` or `=`, an expression and `;`. -/
def varDecl (ts : List Token) : Step (Option Stmt) :=
  let name := p.next ts
  let sign := p.next (ts.drop 1)
  if name.tokenClass = .identifier then
    if sign.is .semicolon then ⟨some (.varDecl name.lexeme none), 2, []⟩
    else if sign.is .assignment then
      let value := expression (ts.drop 3) .lowest
      ((closing p .semicolon (.missingSemicolon "var") (ts.drop 3) value).build
        fun v => .varDecl name.lexeme (some v)).after 3 []
    else (fail sign (.expectedAssignment sign.describe)).after 1 []
  else fail name (.expectedName name.describe)
termination_by work 3 ts
decreasing_by
  exact work_drop_lt _ _ (by decide)

/-- A return: `return`, an expression and `;`. -/
def ret (ts : List Token) : Step (Option Stmt) :=
  let value := expression (ts.drop 1) .lowest
  ((closing p .semicolon (.missingSemicolon "return") (ts.drop 1) value).build .ret).after 1 []
termination_by work 3 ts
decreasing_by
  exact work_drop_lt _ _ (by decide)

/-- An expression as a statement, with the `;` that may follow it. -/
def expressionStmt (ts : List Token) : Step (Option Stmt) :=
  let value := expression ts .lowest
  let mark := if (p.next (ts.drop value.moved)).is .semicolon then 1 else 0
  ⟨value.value.map .expr, value.moved + mark, value.errors⟩
termination_by work 3 ts
decreasing_by
  exact work_lt_of_rank _ (by decide)

end

end Frontend.Parse
