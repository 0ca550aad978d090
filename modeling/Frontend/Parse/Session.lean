import Frontend.Parse.Program

/-!
# A parse led by hand

The parsing functions can be called one by one, in any order and under any grammar. A session holds
what passes from one call to the next: the grammar, the place in the token list and what has been
reported.
-/

namespace Frontend.Parse

structure Session where
  setting : Setting
  /-- The tokens from the place on. -/
  rest : List Token
  errors : List Diagnostic

namespace Session

def start (g : Grammar) (tokens : List Token) : Session :=
  ⟨⟨g, Program.endMark tokens⟩, tokens, []⟩

/-- The token at the place. -/
def current (s : Session) : Token :=
  s.setting.current s.rest

/-- The token after the one at the place. -/
def next (s : Session) : Token :=
  s.setting.next s.rest

def register (s : Session) (change : Registration) : Session :=
  { s with setting := { s.setting with grammar := s.setting.grammar.register change } }

/-- The session after a step. -/
def behind {α : Type} (s : Session) (step : Step α) : Session :=
  { s with rest := s.rest.drop step.moved, errors := s.errors ++ step.errors }

def advance (s : Session) : Session :=
  s.behind ⟨(), 1, []⟩

/-- Requires the token at the place to stand for the symbol. -/
def expectCurrent (s : Session) (symbol : Symbol) (fault : String → Fault) : Step (Option Unit) :=
  expect s.current symbol fault

/-- Requires the token after the one at the place to stand for the symbol. -/
def expectNext (s : Session) (symbol : Symbol) (fault : String → Fault) : Step (Option Unit) :=
  expect s.next symbol fault

end Session

end Frontend.Parse
