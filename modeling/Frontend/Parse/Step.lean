import Frontend.Diagnostic
import Frontend.Grammar.Basic

/-!
# Steps of a parse

A parsing function starts at a place in the token list and looks at the tokens from there on. Its
result says what was built, by how many tokens the place moves, and what was reported, in order. A
tree that cannot be built is `none`; the place moves all the same, so that the parse goes on behind.

The place is on a token and looks one token ahead. Behind the end of the list every token looked at
is the same mark of the end of the input.
-/

namespace Frontend.Parse

structure Step (α : Type) where
  value : α
  /-- By how many tokens the place moves. -/
  moved : Nat
  errors : List Diagnostic

namespace Step

variable {α β : Type}

/-- A step without moving and without a report. -/
def stay (value : α) : Step α :=
  ⟨value, 0, []⟩

/-- The step as a part of a longer one, which has moved and reported before. -/
def after (s : Step α) (moved : Nat) (errors : List Diagnostic) : Step α :=
  ⟨s.value, moved + s.moved, errors ++ s.errors⟩

/-- Builds further on a tree, if there is one. -/
def build (s : Step (Option α)) (f : α → β) : Step (Option β) :=
  ⟨s.value.map f, s.moved, s.errors⟩

@[simp] theorem value_stay (value : α) : (stay value).value = value := rfl

@[simp] theorem moved_stay (value : α) : (stay value).moved = 0 := rfl

@[simp] theorem errors_stay (value : α) : (stay value).errors = [] := rfl

@[simp] theorem value_after (s : Step α) (moved : Nat) (errors : List Diagnostic) :
    (s.after moved errors).value = s.value := rfl

@[simp] theorem moved_after (s : Step α) (moved : Nat) (errors : List Diagnostic) :
    (s.after moved errors).moved = moved + s.moved := rfl

@[simp] theorem errors_after (s : Step α) (moved : Nat) (errors : List Diagnostic) :
    (s.after moved errors).errors = errors ++ s.errors := rfl

@[simp] theorem value_build (s : Step (Option α)) (f : α → β) :
    (s.build f).value = s.value.map f := rfl

@[simp] theorem moved_build (s : Step (Option α)) (f : α → β) : (s.build f).moved = s.moved := rfl

@[simp] theorem errors_build (s : Step (Option α)) (f : α → β) :
    (s.build f).errors = s.errors := rfl

end Step

/-- What a parse goes by: the grammar, and the mark that is seen behind the end of the list. -/
structure Setting where
  grammar : Grammar
  endMark : Token

namespace Setting

/-- The token at the place. -/
def current (p : Setting) (ts : List Token) : Token :=
  ts.headD p.endMark

/-- The token after the one at the place. -/
def next (p : Setting) (ts : List Token) : Token :=
  p.current (ts.drop 1)

@[simp] theorem current_nil (p : Setting) : p.current [] = p.endMark := rfl

@[simp] theorem current_cons (p : Setting) (t : Token) (rest : List Token) :
    p.current (t :: rest) = t := rfl

@[simp] theorem next_nil (p : Setting) : p.next [] = p.endMark := rfl

@[simp] theorem next_cons (p : Setting) (t : Token) (rest : List Token) :
    p.next (t :: rest) = p.current rest := rfl

end Setting

/-- The report of a fault at a token. -/
def faultAt (t : Token) (f : Fault) : Diagnostic :=
  ⟨f, t.span.first⟩

/-- Builds nothing and reports a fault at a token. -/
def fail {α : Type} (t : Token) (f : Fault) : Step (Option α) :=
  ⟨none, 0, [faultAt t f]⟩

@[simp] theorem value_fail {α : Type} (t : Token) (f : Fault) :
    (fail t f : Step (Option α)).value = none := rfl

@[simp] theorem moved_fail {α : Type} (t : Token) (f : Fault) :
    (fail t f : Step (Option α)).moved = 0 := rfl

@[simp] theorem errors_fail {α : Type} (t : Token) (f : Fault) :
    (fail t f : Step (Option α)).errors = [faultAt t f] := rfl

/-- Moves past a token that has to stand for the symbol; a fault is reported if it does not. -/
def expect (t : Token) (s : Symbol) (fault : String → Fault) : Step (Option Unit) :=
  if t.is s then ⟨some (), 1, []⟩ else fail t (fault t.describe)

/-- Ends a construct by a symbol that has to be next after its last part. The part is given with the
list that it started on. -/
def closing {α : Type} (p : Setting) (s : Symbol) (fault : String → Fault) (ts : List Token)
    (part : Step (Option α)) : Step (Option α) :=
  let close := expect (p.next (ts.drop part.moved)) s fault
  (Step.mk (close.value.bind fun _ => part.value) close.moved close.errors).after
    part.moved part.errors

end Frontend.Parse
