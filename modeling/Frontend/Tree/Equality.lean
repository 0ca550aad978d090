import Frontend.Tree.Basic

/-!
# Equality of syntax trees

* `Expr.same_iff`, `Stmt.same_iff`: comparing two trees node by node decides their equality.
-/

namespace Frontend

mutual

/-- Compares two expressions node by node. -/
def Expr.same : Expr → Expr → Bool
  | .int v, .int w => v = w
  | .bool b, .bool c => b = c
  | .name n, .name m => n = m
  | .unary op e, .unary op' e' => op = op' && e.same e'
  | .binary op l r, .binary op' l' r' => op = op' && l.same l' && r.same r'
  | .cond c body none, .cond c' body' none => c.same c' && sameBlock body body'
  | .cond c body (some other), .cond c' body' (some other') =>
    c.same c' && sameBlock body body' && sameBlock other other'
  | _, _ => false

/-- Compares two statements node by node. -/
def Stmt.same : Stmt → Stmt → Bool
  | .varDecl n none, .varDecl m none => n = m
  | .varDecl n (some e), .varDecl m (some e') => n = m && e.same e'
  | .ret e, .ret e' => e.same e'
  | .expr e, .expr e' => e.same e'
  | .block body, .block body' => sameBlock body body'
  | _, _ => false

/-- Compares two lists of statements node by node. -/
def sameBlock : List Stmt → List Stmt → Bool
  | [], [] => true
  | s :: rest, s' :: rest' => s.same s' && sameBlock rest rest'
  | _, _ => false

end

mutual

theorem Expr.same_iff : ∀ a b : Expr, a.same b = true ↔ a = b
  | .int v, b => by cases b <;> simp [Expr.same]
  | .bool v, b => by cases b <;> simp [Expr.same]
  | .name n, b => by cases b <;> simp [Expr.same]
  | .unary op e, b => by cases b <;> simp [Expr.same, Expr.same_iff e]
  | .binary op l r, b => by
    cases b <;> simp [Expr.same, Expr.same_iff l, Expr.same_iff r, and_assoc]
  | .cond c body none, b => by
    cases b with
    | cond c' body' other' =>
      cases other' <;> simp [Expr.same, Expr.same_iff c, sameBlock_iff body]
    | _ => simp [Expr.same]
  | .cond c body (some other), b => by
    cases b with
    | cond c' body' other' =>
      cases other' <;>
        simp [Expr.same, Expr.same_iff c, sameBlock_iff body, sameBlock_iff other, and_assoc]
    | _ => simp [Expr.same]

theorem Stmt.same_iff : ∀ a b : Stmt, a.same b = true ↔ a = b
  | .varDecl n none, b => by
    cases b with
    | varDecl m value => cases value <;> simp [Stmt.same]
    | _ => simp [Stmt.same]
  | .varDecl n (some e), b => by
    cases b with
    | varDecl m value => cases value <;> simp [Stmt.same, Expr.same_iff e]
    | _ => simp [Stmt.same]
  | .ret e, b => by cases b <;> simp [Stmt.same, Expr.same_iff e]
  | .expr e, b => by cases b <;> simp [Stmt.same, Expr.same_iff e]
  | .block body, b => by cases b <;> simp [Stmt.same, sameBlock_iff body]

theorem sameBlock_iff : ∀ a b : List Stmt, sameBlock a b = true ↔ a = b
  | [], b => by cases b <;> simp [sameBlock]
  | s :: rest, b => by cases b <;> simp [sameBlock, Stmt.same_iff s, sameBlock_iff rest]

end

instance : DecidableEq Expr := fun a b => decidable_of_iff (a.same b = true) (a.same_iff b)

instance : DecidableEq Stmt := fun a b => decidable_of_iff (a.same b = true) (a.same_iff b)

end Frontend
