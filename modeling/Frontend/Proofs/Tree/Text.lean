import Frontend.Proofs.Decimal
import Frontend.Proofs.Token.Front
import Frontend.Proofs.Tree.Spelling

/-!
# The characters of a printed tree

The text of a tree as a list of characters, cut at the symbols and the blanks in it, and how the
text of a spelled tree begins.

* `toList_unary`, `toList_binary`, `toList_cond` and so on: one equation for each kind of tree.
* `Expr.text_starts`, `Stmt.text_starts`: a text begins with a word or an opening parenthesis.
-/

namespace Frontend

open Rule (isWordChar)

variable {c : Expr}

/-! ## Expressions -/

/-- What the text of a condition is: there is one pair of parentheses around it. -/
def conditionText (c : Expr) : String :=
  if c.isApplication then c.text else "(" ++ c.text ++ ")"

theorem conditionText_of_isApplication (h : c.isApplication = true) : conditionText c = c.text :=
  if_pos h

theorem toList_conditionText (h : c.isApplication = false) :
    (conditionText c).toList = Symbol.openParen.spelling.toList ++
      (c.text.toList ++ Symbol.closeParen.spelling.toList) := by
  simp only [conditionText, h, Bool.false_eq_true, if_false, String.toList_append,
    List.append_assoc]
  rfl

theorem exists_conditionText (c : Expr) : ∃ tail, (conditionText c).toList = '(' :: tail := by
  unfold conditionText
  split
  · rename_i hIs
    cases c with
    | unary | binary =>
      simp only [Expr.text, String.toList_append]
      exact ⟨_, rfl⟩
    | _ => cases hIs
  · simp only [String.toList_append]
    exact ⟨_, rfl⟩

theorem toList_unary (op : UnaryOp) (e : Expr) :
    (Expr.unary op e).text.toList = Symbol.openParen.spelling.toList ++
      ((op.symbol.spelling.toList ++ e.text.toList) ++ Symbol.closeParen.spelling.toList) := by
  simp only [Expr.text, String.toList_append, List.append_assoc]
  rfl

theorem toList_binary (op : BinaryOp) (l r : Expr) :
    (Expr.binary op l r).text.toList = Symbol.openParen.spelling.toList ++
      ((l.text.toList ++ (op.symbol.spelling.toList ++ r.text.toList)) ++
        Symbol.closeParen.spelling.toList) := by
  simp only [Expr.text, String.toList_append, List.append_assoc]
  rfl

theorem toList_braced (text : String) :
    (braced text).toList = Symbol.openCurly.spelling.toList ++
      (text.toList ++ Symbol.closeCurly.spelling.toList) := by
  simp only [braced, String.toList_append, List.append_assoc]
  rfl

theorem toList_cond (c : Expr) (body : List Stmt) :
    (Expr.cond c body none).text.toList = (Symbol.ifWord.spelling.toList ++ [' ']) ++
      ((conditionText c).toList ++ ([' '] ++ (braced (bodyText body)).toList)) := by
  simp only [Expr.text, conditionText, String.append_empty, String.toList_append,
    List.append_assoc]
  rfl

theorem toList_condElse (c : Expr) (body other : List Stmt) :
    (Expr.cond c body (some other)).text.toList =
      (Expr.cond c body none).text.toList ++
        ([' '] ++ ((Symbol.elseWord.spelling.toList ++ [' ']) ++
          (braced (bodyText other)).toList)) := by
  simp only [Expr.text, String.append_empty, String.toList_append, List.append_assoc]
  rfl

theorem exists_toList_cond (c : Expr) (body : List Stmt) (other : Option (List Stmt)) :
    ∃ tail, (Expr.cond c body other).text.toList =
      Symbol.ifWord.spelling.toList ++ (' ' :: tail) := by
  cases other with
  | none => exact ⟨_, by rw [toList_cond, List.append_assoc]; rfl⟩
  | some other =>
    exact ⟨_, by rw [toList_condElse, toList_cond, List.append_assoc, List.append_assoc]; rfl⟩

/-! ## Statements -/

theorem toList_ret (e : Expr) :
    (Stmt.ret e).text.toList = (Symbol.returnWord.spelling.toList ++ [' ']) ++
      (e.text.toList ++ Symbol.semicolon.spelling.toList) := by
  simp only [Stmt.text, String.toList_append, List.append_assoc]
  rfl

theorem toList_declaration (n : String) :
    (Stmt.varDecl n none).text.toList = (Symbol.varWord.spelling.toList ++ [' ']) ++
      (n.toList ++ Symbol.semicolon.spelling.toList) := by
  simp only [Stmt.text, String.toList_append, List.append_assoc]
  rfl

theorem toList_varDecl (n : String) (e : Expr) :
    (Stmt.varDecl n (some e)).text.toList =
      (Symbol.varWord.spelling.toList ++ [' ']) ++ (n.toList ++ ([' '] ++
        (Symbol.assignment.spelling.toList ++ ([' '] ++
          (e.text.toList ++ Symbol.semicolon.spelling.toList))))) := by
  simp only [Stmt.text, String.toList_append, List.append_assoc]
  rfl

theorem exists_toList_varDecl (n : String) (value : Option Expr) :
    ∃ tail, (Stmt.varDecl n value).text.toList =
      Symbol.varWord.spelling.toList ++ (' ' :: tail) := by
  cases value with
  | none => exact ⟨_, by rw [toList_declaration, List.append_assoc]; rfl⟩
  | some e => exact ⟨_, by rw [toList_varDecl, List.append_assoc]; rfl⟩

theorem toList_bodyText (s next : Stmt) (others : List Stmt) :
    (bodyText (s :: next :: others)).toList =
      s.text.toList ++ ([' '] ++ (bodyText (next :: others)).toList) := by
  simp only [bodyText, String.toList_append, List.append_assoc]
  rfl

/-! ## How a text begins -/

/-- The text begins with a word or with an opening parenthesis. -/
def Starts (text : List Char) : Prop :=
  ∃ c tail, text = c :: tail ∧ (isWordChar c = true ∨ c = '(')

theorem Starts.append {text : List Char} (h : Starts text) (rest : List Char) :
    Starts (text ++ rest) := by
  obtain ⟨c, tail, rfl, hChar⟩ := h
  exact ⟨c, tail ++ rest, rfl, hChar⟩

theorem starts_of_word {word : List Char} (hWord : word ≠ [])
    (hChars : ∀ c ∈ word, isWordChar c = true) : Starts word := by
  obtain ⟨c, tail, rfl⟩ := List.exists_cons_of_ne_nil hWord
  exact ⟨c, tail, rfl, Or.inl (hChars c List.mem_cons_self)⟩

theorem Expr.text_starts {e : Expr} (h : e.isSpelled = true) : Starts e.text.toList := by
  cases e with
  | int v =>
    have hPos : 0 ≤ v := by simpa [Expr.isSpelled] using h
    rw [Expr.text, Decimal.toList_ofInt hPos]
    exact starts_of_word (Decimal.digits_ne_nil _)
      fun c hc => isWordChar_of_isDigit (Decimal.isDigit_of_mem_digits hc)
  | bool b =>
    rw [Expr.text]
    exact starts_of_word (by cases b <;> decide) (Truth.isWordChar_of_mem b)
  | name n =>
    rw [Expr.isSpelled, isWord_iff] at h
    rw [Expr.text]
    exact starts_of_word h.1 h.2.1
  | unary op e =>
    simp only [Expr.text, String.toList_append]
    exact ⟨'(', _, rfl, Or.inr rfl⟩
  | binary op l r =>
    simp only [Expr.text, String.toList_append]
    exact ⟨'(', _, rfl, Or.inr rfl⟩
  | cond c body other =>
    obtain ⟨tail, hText⟩ := exists_toList_cond c body other
    rw [hText]
    exact ⟨'i', _, rfl, Or.inl (by decide)⟩

theorem Stmt.text_starts {s : Stmt} (h : s.isSpelled = true) : Starts s.text.toList := by
  cases s with
  | varDecl n value =>
    obtain ⟨tail, hText⟩ := exists_toList_varDecl n value
    rw [hText]
    exact ⟨'v', _, rfl, Or.inl (by decide)⟩
  | ret e =>
    simp only [Stmt.text, String.toList_append]
    exact ⟨'r', _, rfl, Or.inl (by decide)⟩
  | expr e =>
    rw [Stmt.text]
    exact Expr.text_starts h
  | block body => cases h

theorem bodyText_starts {s : Stmt} {rest : List Stmt} (h : s.isSpelled = true) :
    Starts (bodyText (s :: rest)).toList := by
  cases rest with
  | nil =>
    rw [bodyText]
    exact Stmt.text_starts h
  | cons next rest =>
    simp only [bodyText, String.toList_append, List.append_assoc]
    exact (Stmt.text_starts h).append _

end Frontend
