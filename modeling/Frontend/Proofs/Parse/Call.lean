import Frontend.Parse.Session
import Frontend.Proofs.Parse.Contract

/-!
# Calls of the parsing functions

The parsing functions call one another, and each can also be called alone, in a parse led by hand.
A call names the function and what it is handed besides the place; so a statement about all parsing
functions is a statement about all calls.

* `Call.run`: what a call gives.
* `Call.Makes`, `Call.Reaches`: the calls that a function makes itself, and those that it comes to
  in any number of steps.
* `Session.call`: a parse led by hand after a call.
-/

namespace Frontend.Parse

/-- A parsing function with what it is handed: a floor, or what was built before. -/
inductive Call where
  | expression (floor : BindingPower)
  | operators (floor : BindingPower) (left : Option Expr)
  | binary (left : Option Expr) (floor : BindingPower)
  | operand (rule : OperandRule)
  | branches (condition : Option Expr)
  | otherwise (condition : Option Expr) (body : List Stmt)
  | block
  | statements (inBlock : Bool)
  | statement
  | construct (rule : StatementRule)

/-- What a parsing function builds. -/
inductive Node where
  | expr (e : Expr)
  | stmt (s : Stmt)
  | block (body : List Stmt)
  | statements (list : List Stmt)

namespace Call

/-- A step that always builds something. -/
def built {α : Type} (s : Step α) (node : α → Node) : Step (Option Node) :=
  ⟨some (node s.value), s.moved, s.errors⟩

/-- What a call gives that starts on the tokens. -/
def run (p : Setting) (ts : List Token) : Call → Step (Option Node)
  | expression floor => (Parse.expression p ts floor).build .expr
  | operators floor left => (Parse.operators p ts floor left).build .expr
  | binary left floor => (Parse.binary p ts left floor).build .expr
  | operand rule => (Parse.operand p ts rule).build .expr
  | branches condition => (Parse.branches p ts condition).build .expr
  | otherwise condition body => (Parse.otherwise p ts condition body).build .expr
  | block => built (Parse.block p ts) .block
  | statements inBlock => built (Parse.statements p ts inBlock) .statements
  | statement => (Parse.statement p ts).build .stmt
  | construct .varDecl => (Parse.varDecl p ts).build .stmt
  | construct .ret => (Parse.ret p ts).build .stmt
  | construct .expr => (Parse.expressionStmt p ts).build .stmt

/-- Whether what was built before is there, if the function goes on from something. -/
def isGiven : Call → Bool
  | operators _ left => left.isSome
  | binary left _ => left.isSome
  | branches condition => condition.isSome
  | otherwise condition _ => condition.isSome
  | _ => true

/-- The same function, which may be handed other things that were built before. -/
inductive SameFunction : Call → Call → Prop
  | expression (floor) : SameFunction (expression floor) (expression floor)
  | operators (floor left left') : SameFunction (operators floor left) (operators floor left')
  | binary (floor left left') : SameFunction (binary left floor) (binary left' floor)
  | operand (rule) : SameFunction (operand rule) (operand rule)
  | branches (condition condition') : SameFunction (branches condition) (branches condition')
  | otherwise (condition body condition' body') :
    SameFunction (otherwise condition body) (otherwise condition' body')
  | block : SameFunction block block
  | statements (inBlock) : SameFunction (statements inBlock) (statements inBlock)
  | statement : SameFunction statement statement
  | construct (rule) : SameFunction (construct rule) (construct rule)

/-- The calls that a function makes itself under the grammar of the language: on which tokens each
starts, and what it is handed. -/
inductive Makes (p : Setting) : List Token → Call → List Token → Call → Prop
  | first {t rest floor rule} : Opening t rule →
    Makes p (t :: rest) (expression floor) (t :: rest) (operand rule)
  | furtherOperands {t rest floor rule} : Opening t rule →
    Makes p (t :: rest) (expression floor)
      ((t :: rest).drop (Parse.operand p (t :: rest) rule).moved)
      (operators floor (Parse.operand p (t :: rest) rule).value)
  | fold {head t rest floor left} {op : BinaryOp} : t.is op.symbol = true → floor < op.power →
    Makes p (head :: t :: rest) (operators floor left) (t :: rest) (binary left op.power)
  | furtherOperators {head t rest floor left} {op : BinaryOp} : t.is op.symbol = true →
    floor < op.power →
    Makes p (head :: t :: rest) (operators floor left)
      ((t :: rest).drop (Parse.binary p (t :: rest) left op.power).moved)
      (operators floor (Parse.binary p (t :: rest) left op.power).value)
  | right {t rest left floor} {op : BinaryOp} : t.is op.symbol = true →
    Makes p (t :: rest) (binary left floor) rest (expression floor)
  | unary {t rest} {op : UnaryOp} : t.is op.symbol = true →
    Makes p (t :: rest) (operand .unary) rest (expression .unary)
  | group {ts} : Makes p ts (operand .group) (ts.drop 1) (expression .lowest)
  | condition {t rest} : (p.current rest).is .openParen = true →
    Makes p (t :: rest) (operand .cond) rest (expression .lowest)
  | branches {t rest} : (p.current rest).is .openParen = true →
    Makes p (t :: rest) (operand .cond) (rest.drop (Parse.expression p rest .lowest).moved)
      (branches (Parse.expression p rest .lowest).value)
  | body {close opening rest condition} : close.is .closeParen = true →
    opening.is .openCurly = true →
    Makes p (close :: opening :: rest) (branches condition) (opening :: rest) block
  | otherwise {close opening rest condition} : close.is .closeParen = true →
    opening.is .openCurly = true →
    Makes p (close :: opening :: rest) (branches condition)
      ((opening :: rest).drop (Parse.block p (opening :: rest)).moved)
      (otherwise condition (Parse.block p (opening :: rest)).value)
  | other {last word opening rest condition body} : word.is .elseWord = true →
    opening.is .openCurly = true →
    Makes p (last :: word :: opening :: rest) (otherwise condition body) (opening :: rest) block
  | inside {ts} : Makes p ts block (ts.drop 1) (statements true)
  | one {t rest inBlock} : ¬ Ends inBlock (t :: rest) →
    Makes p (t :: rest) (statements inBlock) (t :: rest) statement
  | furtherStatements {t rest inBlock} : ¬ Ends inBlock (t :: rest) →
    Makes p (t :: rest) (statements inBlock)
      (rest.drop (Parse.statement p (t :: rest)).moved) (statements inBlock)
  | varDecl {ts} : (p.current ts).is .varWord = true →
    Makes p ts statement ts (construct .varDecl)
  | ret {ts} : (p.current ts).is .returnWord = true → Makes p ts statement ts (construct .ret)
  | expressionStmt {ts} : ¬ (p.current ts).is .varWord = true →
    ¬ (p.current ts).is .returnWord = true → Makes p ts statement ts (construct .expr)
  | assigned {t word sign rest} : word.tokenClass = .identifier → sign.is .assignment = true →
    Makes p (t :: word :: sign :: rest) (construct .varDecl) rest (expression .lowest)
  | returned {ts} : Makes p ts (construct .ret) (ts.drop 1) (expression .lowest)
  | evaluated {ts} : Makes p ts (construct .expr) ts (expression .lowest)

/-- The calls that a function comes to, itself included. -/
inductive Reaches (p : Setting) : List Token → Call → List Token → Call → Prop
  | self {ts c} : Reaches p ts c ts c
  | step {ts us vs c d e} : Makes p ts c us d → Reaches p us d vs e → Reaches p ts c vs e

end Call

/-- The parse led by hand after a call. -/
def Session.call (s : Session) (c : Call) : Session :=
  s.behind (c.run s.setting s.rest)

end Frontend.Parse
