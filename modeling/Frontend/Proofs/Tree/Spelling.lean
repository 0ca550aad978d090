import Frontend.Proofs.Tree.Printable

/-!
# Names in a printed tree

A source may use a word like `if` as a name: it is taken for the keyword only where a blank, an
opening parenthesis or the end of the source follows. The text of a tree may put the name where this
is the case, and then the keyword is read there. Such a name is exposed. There are three places:

* the name of a variable with a value, behind which a blank stands,
* a statement that is nothing but a name, if another statement follows in the block,
* the same at the end of the text, which is told apart, since it depends on what follows.

A variable that is named like a truth value is exposed in any case.

* `Expr.isSpelled`, `Stmt.isSpelled`: whether a source can spell the tree.
* `Expr.isExposed`, `Stmt.isExposed`: whether a name is exposed in the tree.
* `Expr.legible_of_isPrintable`, `Stmt.legible_of_isPrintable`: a printable tree is spelled and
  exposes no name.
-/

namespace Frontend

open Rule (isWordChar)

/-! ## Words -/

/-- Whether the name is a word of ASCII characters that does not begin with a digit. -/
def isWord (n : String) : Bool :=
  n ≠ "" && n.toList.all isWordChar && !n.toList.head?.any Char.isDigit

/-- Whether the name is spelled like a keyword. -/
def spellsKeyword (n : String) : Bool :=
  Symbol.all.any fun s => s.tokenClass = .keyword && n = s.spelling

/-- Whether the name is spelled like a truth value. -/
def spellsTruth (n : String) : Bool :=
  n = Truth.text true || n = Truth.text false

theorem isWord_iff {n : String} :
    isWord n = true ↔ n.toList ≠ [] ∧ (∀ c ∈ n.toList, isWordChar c = true) ∧
      ∀ c ∈ n.toList.head?, c.isDigit = false := by
  have hDigit : (!n.toList.head?.any Char.isDigit) = true ↔
      ∀ c ∈ n.toList.head?, c.isDigit = false := by
    cases n.toList.head? <;> simp
  simp only [isWord, Bool.and_eq_true, hDigit, List.all_eq_true, decide_eq_true_eq, ne_eq,
    String.toList_eq_nil_iff, and_assoc]

theorem spellsKeyword_iff {n : String} :
    spellsKeyword n = true ↔ ∃ s : Symbol, s.tokenClass = .keyword ∧ n = s.spelling := by
  simp [spellsKeyword, Symbol.mem_all]

theorem spellsTruth_iff {n : String} : spellsTruth n = true ↔ ∃ b, n = Truth.text b := by
  simp [spellsTruth, or_comm]

/-- A name for a printed tree is a word that is no keyword. -/
theorem isName_eq (n : String) : isName n = (isWord n && !spellsKeyword n) := by
  have hKeyword : (Symbol.all.all fun s => s.tokenClass ≠ .keyword || n ≠ s.spelling) =
      !spellsKeyword n := by
    rw [spellsKeyword, List.not_any_eq_all_not]
    congr 1
    funext s
    simp [Bool.not_and]
  rw [isName, isWord, hKeyword]

/-! ## Spelled trees -/

mutual

/-- Whether a source can spell the expression: its numbers have no sign, and its names are words. -/
def Expr.isSpelled : Expr → Bool
  | .int v => 0 ≤ v
  | .bool _ => true
  | .name n => isWord n
  | .unary _ e => e.isSpelled
  | .binary _ l r => l.isSpelled && r.isSpelled
  | .cond c body none => c.isSpelled && bodyIsSpelled body
  | .cond c body (some other) => c.isSpelled && bodyIsSpelled body && bodyIsSpelled other

/-- Whether a source can spell the statement. No source spells a block that stands for itself. -/
def Stmt.isSpelled : Stmt → Bool
  | .varDecl n none => isWord n
  | .varDecl n (some e) => isWord n && e.isSpelled
  | .ret e => e.isSpelled
  | .expr e => e.isSpelled
  | .block _ => false

/-- Whether a source can spell the statements of a block. -/
def bodyIsSpelled : List Stmt → Bool
  | [] => true
  | s :: rest => s.isSpelled && bodyIsSpelled rest

end

/-! ## Exposed names -/

/-- Whether the expression is nothing but a name that is spelled like a keyword. -/
def Expr.isKeyword : Expr → Bool
  | .name n => spellsKeyword n
  | _ => false

/-- Whether the statement is nothing but a name that is spelled like a keyword. -/
def Stmt.isKeyword : Stmt → Bool
  | .expr e => e.isKeyword
  | _ => false

mutual

/-- Whether a name is exposed in a block of the expression. -/
def Expr.isExposed : Expr → Bool
  | .int _ => false
  | .bool _ => false
  | .name _ => false
  | .unary _ e => e.isExposed
  | .binary _ l r => l.isExposed || r.isExposed
  | .cond c body none => c.isExposed || bodyIsExposed body
  | .cond c body (some other) => c.isExposed || bodyIsExposed body || bodyIsExposed other

/-- Whether a name is exposed in the statement, whatever stands behind it. -/
def Stmt.isExposed : Stmt → Bool
  | .varDecl n none => spellsTruth n
  | .varDecl n (some e) => spellsTruth n || spellsKeyword n || e.isExposed
  | .ret e => e.isExposed
  | .expr e => e.isExposed
  | .block body => bodyIsExposed body

/-- Whether a name is exposed in the statements of a block. Behind the last one the block ends. -/
def bodyIsExposed : List Stmt → Bool
  | [] => false
  | [s] => s.isExposed
  | s :: next :: rest => s.isExposed || s.isKeyword || bodyIsExposed (next :: rest)

end

/-! ## Printable trees -/

theorem Expr.isKeyword_of_isPrintable {e : Expr} (h : e.isPrintable = true) :
    e.isKeyword = false := by
  cases e with
  | name n =>
    rw [Expr.isPrintable, isName_eq, Bool.and_eq_true, Bool.not_eq_true'] at h
    exact h.2
  | _ => rfl

theorem Stmt.isKeyword_of_isPrintable {s : Stmt} (h : s.isPrintable = true) :
    s.isKeyword = false := by
  cases s with
  | expr e => exact Expr.isKeyword_of_isPrintable h
  | _ => rfl

mutual

/-- A printable expression is spelled and exposes no name. -/
theorem Expr.legible_of_isPrintable {e : Expr} (h : e.isPrintable = true) :
    e.isSpelled = true ∧ e.isExposed = false := by
  match e with
  | .int v => exact ⟨h, rfl⟩
  | .bool b => exact ⟨rfl, rfl⟩
  | .name n =>
    rw [Expr.isPrintable, isName_eq, Bool.and_eq_true] at h
    exact ⟨h.1, rfl⟩
  | .unary op e => exact e.legible_of_isPrintable h
  | .binary op l r =>
    rw [Expr.isPrintable, Bool.and_eq_true] at h
    have hLeft := l.legible_of_isPrintable h.1
    have hRight := r.legible_of_isPrintable h.2
    simp [Expr.isSpelled, Expr.isExposed, hLeft, hRight]
  | .cond c body none =>
    simp only [Expr.isPrintable, Bool.and_eq_true, and_true] at h
    have hCondition := c.legible_of_isPrintable h.1
    have hBody := legible_of_bodyIsPrintable body h.2
    simp [Expr.isSpelled, Expr.isExposed, hCondition, hBody]
  | .cond c body (some other) =>
    simp only [Expr.isPrintable, Bool.and_eq_true] at h
    have hCondition := c.legible_of_isPrintable h.1.1
    have hBody := legible_of_bodyIsPrintable body h.1.2
    have hOther := legible_of_bodyIsPrintable other h.2
    simp [Expr.isSpelled, Expr.isExposed, hCondition, hBody, hOther]

theorem Stmt.legible_of_isPrintable {s : Stmt} (h : s.isPrintable = true) :
    s.isSpelled = true ∧ s.isExposed = false := by
  match s with
  | .varDecl n none =>
    simp only [Stmt.isPrintable, isName_eq, Bool.and_eq_true, decide_eq_true_eq] at h
    simp [Stmt.isSpelled, Stmt.isExposed, spellsTruth, h]
  | .varDecl n (some e) =>
    simp only [Stmt.isPrintable, isName_eq, Bool.and_eq_true, Bool.not_eq_true',
      decide_eq_true_eq] at h
    have hValue := e.legible_of_isPrintable h.2
    simp [Stmt.isSpelled, Stmt.isExposed, spellsTruth, h, hValue]
  | .ret e => exact e.legible_of_isPrintable h
  | .expr e => exact e.legible_of_isPrintable h
  | .block body => cases h

theorem legible_of_bodyIsPrintable (body : List Stmt) (h : bodyIsPrintable body = true) :
    bodyIsSpelled body = true ∧ bodyIsExposed body = false := by
  match body with
  | [] => exact ⟨rfl, rfl⟩
  | [s] =>
    rw [bodyIsPrintable, Bool.and_eq_true] at h
    have hOne := s.legible_of_isPrintable h.1
    simp [bodyIsSpelled, bodyIsExposed, hOne]
  | s :: next :: rest =>
    rw [bodyIsPrintable, Bool.and_eq_true] at h
    have hOne := s.legible_of_isPrintable h.1
    have hRest := legible_of_bodyIsPrintable (next :: rest) h.2
    rw [bodyIsSpelled, bodyIsExposed, hOne.1, hOne.2, hRest.1, hRest.2,
      Stmt.isKeyword_of_isPrintable h.1]
    exact ⟨rfl, rfl⟩

end

end Frontend
