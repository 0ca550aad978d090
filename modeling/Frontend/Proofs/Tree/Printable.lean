import Frontend.Token.Rule
import Frontend.Tree.Printer

/-!
# Trees whose text can be read

A tree made by hand may have a text that is read as another tree or not at all: a negative literal
is read as an application, and a name may be spelled like anything. A tree is printable if it has no
such part. One difference remains: where a truth value stands before a closing bracket or an
operator, its text is read as a name, and where a name reads like a truth value, it may be taken for
one. So truth values and names are compared by their text.

* `Expr.text_plain`, `Stmt.text_plain`: the plain form of a tree, in which the truth values are
  names, has the same text.
-/

namespace Frontend

open Rule (isWordChar)

/-! ## Printable trees -/

/-- Whether a name of this spelling is read as one word: it is a word of ASCII characters that does
not begin with a digit, and no keyword. -/
def isName (n : String) : Bool :=
  n ≠ "" && n.toList.all isWordChar && !n.toList.head?.any Char.isDigit &&
    Symbol.all.all fun s => s.tokenClass ≠ .keyword || n ≠ s.spelling

mutual

/-- Whether the text of the expression is read as the expression. -/
def Expr.isPrintable : Expr → Bool
  | .int v => 0 ≤ v
  | .bool _ => true
  | .name n => isName n
  | .unary _ e => e.isPrintable
  | .binary _ l r => l.isPrintable && r.isPrintable
  | .cond c body other =>
    c.isPrintable && bodyIsPrintable body &&
      match other with
      | none => true
      | some other => bodyIsPrintable other

/-- Whether the text of the statement is read as the statement. A variable cannot be named like a
truth value, and a block does not stand for itself. -/
def Stmt.isPrintable : Stmt → Bool
  | .varDecl n none => isName n && n ≠ Truth.text true && n ≠ Truth.text false
  | .varDecl n (some e) =>
    isName n && n ≠ Truth.text true && n ≠ Truth.text false && e.isPrintable
  | .ret e => e.isPrintable
  | .expr e => e.isPrintable
  | .block _ => false

/-- Whether all statements of a block are printable. -/
def bodyIsPrintable : List Stmt → Bool
  | [] => true
  | s :: rest => s.isPrintable && bodyIsPrintable rest

end

/-! ## The plain form -/

mutual

/-- The expression with its truth values replaced by names. -/
def Expr.plain : Expr → Expr
  | .int v => .int v
  | .bool b => .name (Truth.text b)
  | .name n => .name n
  | .unary op e => .unary op e.plain
  | .binary op l r => .binary op l.plain r.plain
  | .cond c body none => .cond c.plain (bodyPlain body) none
  | .cond c body (some other) => .cond c.plain (bodyPlain body) (some (bodyPlain other))

/-- The statement with its truth values replaced by names. -/
def Stmt.plain : Stmt → Stmt
  | .varDecl n none => .varDecl n none
  | .varDecl n (some e) => .varDecl n (some e.plain)
  | .ret e => .ret e.plain
  | .expr e => .expr e.plain
  | .block body => .block (bodyPlain body)

/-- The statements of a block with their truth values replaced by names. -/
def bodyPlain : List Stmt → List Stmt
  | [] => []
  | s :: rest => s.plain :: bodyPlain rest

end

theorem bodyPlain_eq_map (body : List Stmt) : bodyPlain body = body.map Stmt.plain := by
  induction body with
  | nil => rw [bodyPlain, List.map_nil]
  | cons s rest ih => rw [bodyPlain, ih, List.map_cons]

@[simp] theorem Expr.isApplication_plain (e : Expr) : e.plain.isApplication = e.isApplication := by
  unfold Expr.plain
  split <;> rfl

mutual

/-- The plain form does not change the text. -/
theorem Expr.text_plain (e : Expr) : e.plain.text = e.text := by
  match e with
  | .int v => rfl
  | .bool b => simp only [Expr.plain, Expr.text]
  | .name n => rfl
  | .unary op e => simp only [Expr.plain, Expr.text, e.text_plain]
  | .binary op l r => simp only [Expr.plain, Expr.text, l.text_plain, r.text_plain]
  | .cond c body none =>
    simp only [Expr.plain, Expr.text, c.text_plain, bodyText_plain body, c.isApplication_plain]
  | .cond c body (some other) =>
    simp only [Expr.plain, Expr.text, c.text_plain, bodyText_plain body, bodyText_plain other,
      c.isApplication_plain]

theorem Stmt.text_plain (s : Stmt) : s.plain.text = s.text := by
  match s with
  | .varDecl n none => rfl
  | .varDecl n (some e) => simp only [Stmt.plain, Stmt.text, e.text_plain]
  | .ret e => simp only [Stmt.plain, Stmt.text, e.text_plain]
  | .expr e => simp only [Stmt.plain, Stmt.text, e.text_plain]
  | .block body => simp only [Stmt.plain, Stmt.text, bodyText_plain body]

theorem bodyText_plain (body : List Stmt) : bodyText (bodyPlain body) = bodyText body := by
  match body with
  | [] => rfl
  | [s] => simp only [bodyPlain, bodyText, s.text_plain]
  | s :: next :: rest =>
    have hRest := bodyText_plain (next :: rest)
    simp only [bodyPlain] at hRest
    simp only [bodyPlain, bodyText, s.text_plain, hRest]

end

theorem programText_plain (program : List Stmt) :
    programText (program.map Stmt.plain) = programText program := by
  induction program with
  | nil => rfl
  | cons s rest ih => rw [List.map_cons, programText, programText, s.text_plain, ih]

end Frontend
