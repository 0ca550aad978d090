import Frontend.Grammar.Table

/-!
# Grammars

A grammar says by what key a statement or an operand begins, which keys are operators between two
operands, and how tightly these bind. The grammar of the language is `Grammar.standard`; others are
made by registering further rules, each in place of an earlier one for the same key.
-/

namespace Frontend

/-- How tightly an operator binds, from the weakest on. -/
inductive BindingPower where
  | lowest
  | equals
  | comparison
  | sum
  | product
  | unary
  /-- Of calls, which no rule makes yet. -/
  | call
  deriving DecidableEq

namespace BindingPower

def all : List BindingPower :=
  [lowest, equals, comparison, sum, product, unary, call]

def rank : BindingPower → Nat
  | lowest => 0
  | equals => 1
  | comparison => 2
  | sum => 3
  | product => 4
  | unary => 5
  | call => 6

instance : LT BindingPower := ⟨fun a b => a.rank < b.rank⟩

instance (a b : BindingPower) : Decidable (a < b) := inferInstanceAs (Decidable (a.rank < b.rank))

def name : BindingPower → String
  | lowest => "Lowest"
  | equals => "Equals"
  | comparison => "Comparison"
  | sum => "Sum"
  | product => "Product"
  | unary => "Prefix"
  | call => "Call"

end BindingPower

/-- What to build from a statement. -/
inductive StatementRule where
  | varDecl
  | ret
  | expr
  deriving DecidableEq

/-- What to build from an operand. -/
inductive OperandRule where
  | integer
  | truth
  | name
  | unary
  | group
  | cond
  deriving DecidableEq

/-- What to build around an operator. -/
inductive OperatorRule where
  | binary
  deriving DecidableEq

/-- The rules by the keys that select them. A statement without a rule is an expression. -/
structure Grammar where
  statements : Table StatementRule
  operands : Table OperandRule
  operators : Table OperatorRule
  powers : Table BindingPower

namespace Grammar

def empty : Grammar := ⟨.empty, .empty, .empty, .empty⟩

/-- Registers how a statement is built that begins with the key. -/
def statement (g : Grammar) (key : Key) (rule : StatementRule) : Grammar :=
  { g with statements := g.statements.insert key rule }

/-- Registers how an operand is built that begins with the key. -/
def operand (g : Grammar) (key : Key) (rule : OperandRule) : Grammar :=
  { g with operands := g.operands.insert key rule }

/-- Registers the key as an operator with its power. -/
def operator (g : Grammar) (key : Key) (power : BindingPower) (rule : OperatorRule) : Grammar :=
  { g with powers := g.powers.insert key power, operators := g.operators.insert key rule }

/-- The power of a token as an operator, the lowest if it is none. -/
def power (g : Grammar) (t : Token) : BindingPower :=
  (g.powers.get? t.key).getD .lowest

def withStandard (g : Grammar) : Grammar :=
  g |>.operator (.symbol .equals) .equals .binary
    |>.operator (.symbol .notEquals) .equals .binary
    |>.operator (.symbol .less) .comparison .binary
    |>.operator (.symbol .lessEquals) .comparison .binary
    |>.operator (.symbol .greater) .comparison .binary
    |>.operator (.symbol .greaterEquals) .comparison .binary
    |>.operator (.symbol .plus) .sum .binary
    |>.operator (.symbol .dash) .sum .binary
    |>.operator (.symbol .star) .product .binary
    |>.operator (.symbol .slash) .product .binary
    |>.operand (.tokenClass .number) .integer
    |>.operand (.tokenClass .boolean) .truth
    |>.operand (.tokenClass .identifier) .name
    |>.operand (.symbol .bang) .unary
    |>.operand (.symbol .dash) .unary
    |>.operand (.symbol .openParen) .group
    |>.operand (.symbol .ifWord) .cond
    |>.statement (.symbol .varWord) .varDecl
    |>.statement (.symbol .returnWord) .ret

def standard : Grammar :=
  empty.withStandard

end Grammar

inductive Registration where
  | statement (key : Key) (rule : StatementRule)
  | operand (key : Key) (rule : OperandRule)
  | operator (key : Key) (power : BindingPower) (rule : OperatorRule)
  /-- All the rules of the language. -/
  | standard
  deriving DecidableEq

def Grammar.register (g : Grammar) : Registration → Grammar
  | .statement key rule => g.statement key rule
  | .operand key rule => g.operand key rule
  | .operator key power rule => g.operator key power rule
  | .standard => g.withStandard

end Frontend
