import Frontend.Parse.Program

/-!
# Values

Literals have values, and so have the operators in front of an operand that has one. Negation wraps
around at the smallest integer. Every other kind of tree is refused by its name, at no place in the
source. A program has the value of its last statement, unless one of its statements is refused.
-/

namespace Frontend

inductive Value where
  | int (value : Int64)
  | bool (value : Bool)
  | null
  deriving DecidableEq

namespace Value

def typeName : Value → String
  | int _ => "INTEGER"
  | bool _ => "BOOLEAN"
  | null => "NULL"

def text : Value → String
  | int v => Decimal.ofInt v.toInt
  | bool b => Truth.text b
  | null => "null"

end Value

/-- Applies an operator. Only integers can be negated; what is neither `false` nor null counts as
true. -/
def UnaryOp.apply : UnaryOp → Value → Value
  | .not, .bool b => .bool !b
  | .not, .null => .bool true
  | .not, .int _ => .bool false
  | .negate, .int v => .int (-v)
  | .negate, .bool _ => .null
  | .negate, .null => .null

def notEvaluable (node : String) : Except Diagnostic Value :=
  .error ⟨.notEvaluable node, .null⟩

def Expr.eval : Expr → Except Diagnostic Value
  | .int v => .ok (.int v)
  | .bool b => .ok (.bool b)
  | .unary op e => e.eval.map op.apply
  | .name _ => notEvaluable "identifier"
  | .binary _ _ _ => notEvaluable "infix expression"
  | .cond _ _ _ => notEvaluable "if expression"

def Stmt.eval : Stmt → Except Diagnostic Value
  | .expr e => e.eval
  | .varDecl _ _ => notEvaluable "var statement"
  | .ret _ => notEvaluable "return statement"
  | .block _ => notEvaluable "block statement"

/-- What is recorded while an expression is evaluated: each expression that is reached. -/
def Expr.evalLog (e : Expr) : List Record :=
  ⟨.trace, "evaluating " ++ e.text⟩ ::
    match e with
    | .unary _ operand => operand.evalLog
    | _ => []

def Stmt.evalLog : Stmt → List Record
  | .expr e => e.evalLog
  | _ => []

namespace Program

/-- The value of the last statement, null if there is none; refused by the first statement that is
refused. -/
def evalStatements (statements : List Stmt) : Except Diagnostic Value :=
  statements.foldlM (fun _ s => s.eval) .null

/-- What is recorded while statements are evaluated, up to the first that is refused. -/
def evalStatementsLog : List Stmt → List Record
  | [] => []
  | s :: rest =>
    s.evalLog ++
      match s.eval with
      | .ok _ => evalStatementsLog rest
      | .error _ => []

def eval (program : Program) : Except Diagnostic Value :=
  evalStatements program.statements

def evalLog (program : Program) : List Record :=
  evalStatementsLog program.statements

end Program

end Frontend
