import Frontend.Tree.Basic
import Frontend.Truth

/-!
# Printed trees

The canonical text of a tree. Every application of an operator stands in parentheses, so that no
precedence is needed to read it. A condition has exactly one pair of parentheses: its own if it is
an application, else a pair around it. The statements of a block are separated by a space, those of
a program by nothing.
-/

namespace Frontend

/-- Whether the text of the expression has parentheses of its own. -/
def Expr.isApplication : Expr → Bool
  | .unary _ _ => true
  | .binary _ _ _ => true
  | _ => false

/-- The text of a block around the text of its statements. -/
def braced (body : String) : String :=
  "\x7b" ++ body ++ "\x7d"

mutual

/-- The text of an expression. -/
def Expr.text : Expr → String
  | .int v => Decimal.ofInt v.toInt
  | .bool b => Truth.text b
  | .name n => n
  | .unary op e => "(" ++ op.symbol.spelling ++ e.text ++ ")"
  | .binary op l r => "(" ++ l.text ++ op.symbol.spelling ++ r.text ++ ")"
  | .cond c body other =>
    "if " ++ (if c.isApplication then c.text else "(" ++ c.text ++ ")") ++ " " ++
      braced (bodyText body) ++
      match other with
      | none => ""
      | some other => " else " ++ braced (bodyText other)

/-- The text of a statement. -/
def Stmt.text : Stmt → String
  | .varDecl n none => "var " ++ n ++ ";"
  | .varDecl n (some e) => "var " ++ n ++ " = " ++ e.text ++ ";"
  | .ret e => "return " ++ e.text ++ ";"
  | .expr e => e.text
  | .block body => braced (bodyText body)

/-- The text of the statements of a block. -/
def bodyText : List Stmt → String
  | [] => ""
  | [s] => s.text
  | s :: next :: rest => s.text ++ " " ++ bodyText (next :: rest)

end

/-- The text of the statements of a program. -/
def programText : List Stmt → String
  | [] => ""
  | s :: rest => s.text ++ programText rest

end Frontend
