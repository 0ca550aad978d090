import Frontend.Token.Basic

/-!
# Syntax trees

Expressions and statements as the parser builds them. A conditional holds blocks, so that the two
kinds are defined together. Trees may also be made by hand, and then hold what no source gives:
negative literals, names of any spelling, blocks in place of statements.

* `UnaryOp.ofSymbol?_eq_some_iff`, `BinaryOp.ofSymbol?_eq_some_iff`: an operator is written with its
  own symbol and no other.
-/

namespace Frontend

/-- The operators in front of an operand. -/
inductive UnaryOp where
  | not
  | negate
  deriving DecidableEq

namespace UnaryOp

/-- The symbol an operator is written with. -/
def symbol : UnaryOp → Symbol
  | not => .bang
  | negate => .dash

/-- The operator written with a symbol. -/
def ofSymbol? : Symbol → Option UnaryOp
  | .bang => some not
  | .dash => some negate
  | _ => none

theorem ofSymbol?_eq_some_iff {s : Symbol} {op : UnaryOp} :
    ofSymbol? s = some op ↔ s = op.symbol := by
  cases s <;> cases op <;> decide

end UnaryOp

/-- The operators between two operands. -/
inductive BinaryOp where
  | plus
  | minus
  | multiply
  | divide
  | equals
  | notEquals
  | less
  | lessEquals
  | greater
  | greaterEquals
  deriving DecidableEq

namespace BinaryOp

/-- The symbol an operator is written with. -/
def symbol : BinaryOp → Symbol
  | plus => .plus
  | minus => .dash
  | multiply => .star
  | divide => .slash
  | equals => .equals
  | notEquals => .notEquals
  | less => .less
  | lessEquals => .lessEquals
  | greater => .greater
  | greaterEquals => .greaterEquals

/-- The operator written with a symbol. -/
def ofSymbol? : Symbol → Option BinaryOp
  | .plus => some plus
  | .dash => some minus
  | .star => some multiply
  | .slash => some divide
  | .equals => some equals
  | .notEquals => some notEquals
  | .less => some less
  | .lessEquals => some lessEquals
  | .greater => some greater
  | .greaterEquals => some greaterEquals
  | _ => none

theorem ofSymbol?_eq_some_iff {s : Symbol} {op : BinaryOp} :
    ofSymbol? s = some op ↔ s = op.symbol := by
  cases s <;> cases op <;> decide

end BinaryOp

mutual

/-- What produces a value. -/
inductive Expr where
  | int (value : Int64)
  | bool (value : Bool)
  | name (text : String)
  | unary (op : UnaryOp) (operand : Expr)
  | binary (op : BinaryOp) (left right : Expr)
  | cond (condition : Expr) (body : List Stmt) (otherwise : Option (List Stmt))

/-- What may stand at the top of a program and in a block. -/
inductive Stmt where
  | varDecl (name : String) (value : Option Expr)
  | ret (value : Expr)
  | expr (value : Expr)
  | block (body : List Stmt)

end

end Frontend
