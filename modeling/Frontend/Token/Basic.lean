import Frontend.Position
import Frontend.Text.Quoted

/-!
# Tokens

A token is a lexeme with a class and the stretch of source it came from. Keywords, operators and
punctuation marks are symbols: a symbol has one spelling and one class, and a token stands for it if
it has both. So an identifier that happens to read `if` stands for no symbol.

* `Symbol.ofSpelling?_spelling`: no two symbols share a spelling.
* `Token.symbol?_eq_some_iff`: a token stands for the symbol with its lexeme and its class.
-/

namespace Frontend

inductive TokenClass where
  | whitespace
  | keyword
  | identifier
  | number
  | boolean
  | operator
  | openBracket
  | closeBracket
  | semicolon
  | assignment
  | endOfInput
  deriving DecidableEq

namespace TokenClass

def all : List TokenClass :=
  [whitespace, keyword, identifier, number, boolean, operator, openBracket, closeBracket, semicolon,
    assignment, endOfInput]

theorem mem_all (k : TokenClass) : k ∈ all := by
  cases k <;> decide

def name : TokenClass → String
  | whitespace => "Whitespace"
  | keyword => "Keyword"
  | identifier => "Identifier"
  | number => "Number"
  | boolean => "Boolean"
  | operator => "Operator"
  | openBracket => "OpenParam"
  | closeBracket => "CloseParam"
  | semicolon => "Semicolon"
  | assignment => "Assignment"
  | endOfInput => "EOF"

end TokenClass

/-- The keywords, operators and punctuation marks. -/
inductive Symbol where
  | ifWord
  | elseWord
  | forWord
  | varWord
  | returnWord
  | fnWord
  | equals
  | notEquals
  | plusPlus
  | plus
  | minusMinus
  | dash
  | star
  | slash
  | lessEquals
  | greaterEquals
  | less
  | greater
  | bang
  | assignment
  | semicolon
  | openParen
  | closeParen
  | openCurly
  | closeCurly
  deriving DecidableEq

namespace Symbol

def all : List Symbol :=
  [ifWord, elseWord, forWord, varWord, returnWord, fnWord, equals, notEquals, plusPlus, plus,
    minusMinus, dash, star, slash, lessEquals, greaterEquals, less, greater, bang, assignment,
    semicolon, openParen, closeParen, openCurly, closeCurly]

theorem mem_all (s : Symbol) : s ∈ all := by
  cases s <;> decide

def name : Symbol → String
  | ifWord => "If"
  | elseWord => "Else"
  | forWord => "For"
  | varWord => "Var"
  | returnWord => "Return"
  | fnWord => "Fn"
  | equals => "Equals"
  | notEquals => "NotEquals"
  | plusPlus => "PlusPlus"
  | plus => "Plus"
  | minusMinus => "MinusMinus"
  | dash => "Dash"
  | star => "Star"
  | slash => "Slash"
  | lessEquals => "LessEquals"
  | greaterEquals => "GreaterEquals"
  | less => "Less"
  | greater => "Greater"
  | bang => "Not"
  | assignment => "Assignment"
  | semicolon => "Semicolon"
  | openParen => "OpenParen"
  | closeParen => "CloseParen"
  | openCurly => "OpenCurly"
  | closeCurly => "CloseCurly"

def spelling : Symbol → String
  | ifWord => "if"
  | elseWord => "else"
  | forWord => "for"
  | varWord => "var"
  | returnWord => "return"
  | fnWord => "fn"
  | equals => "=="
  | notEquals => "!="
  | plusPlus => "++"
  | plus => "+"
  | minusMinus => "--"
  | dash => "-"
  | star => "*"
  | slash => "/"
  | lessEquals => "<="
  | greaterEquals => ">="
  | less => "<"
  | greater => ">"
  | bang => "!"
  | assignment => "="
  | semicolon => ";"
  | openParen => "("
  | closeParen => ")"
  | openCurly => "\x7b"
  | closeCurly => "\x7d"

/-- The class of the tokens that stand for a symbol. -/
def tokenClass : Symbol → TokenClass
  | ifWord | elseWord | forWord | varWord | returnWord | fnWord => .keyword
  | equals | notEquals | plusPlus | plus | minusMinus | dash | star | slash | lessEquals
  | greaterEquals | less | greater | bang => .operator
  | assignment => .assignment
  | semicolon => .semicolon
  | openParen | openCurly => .openBracket
  | closeParen | closeCurly => .closeBracket

def ofSpelling? (lexeme : String) : Option Symbol :=
  all.find? fun s => s.spelling = lexeme

theorem ofSpelling?_spelling (s : Symbol) : ofSpelling? s.spelling = some s := by
  cases s <;> decide

theorem ofSpelling?_eq_some_iff {lexeme : String} {s : Symbol} :
    ofSpelling? lexeme = some s ↔ s.spelling = lexeme := by
  constructor
  · intro h
    simpa using List.find?_some h
  · rintro rfl
    exact ofSpelling?_spelling s

end Symbol

/-- A classified piece of a source. The class and the lexeme need not agree: a token may also be
made by hand. -/
structure Token where
  tokenClass : TokenClass
  lexeme : String
  span : Span
  deriving DecidableEq

namespace Token

def symbol? (t : Token) : Option Symbol :=
  (Symbol.ofSpelling? t.lexeme).filter fun s => s.tokenClass = t.tokenClass

theorem symbol?_eq_some_iff {t : Token} {s : Symbol} :
    t.symbol? = some s ↔ t.lexeme = s.spelling ∧ t.tokenClass = s.tokenClass := by
  simp only [symbol?, Option.filter_eq_some_iff, Symbol.ofSpelling?_eq_some_iff, decide_eq_true_eq]
  constructor <;> rintro ⟨h₁, h₂⟩ <;> exact ⟨h₁.symm, h₂.symm⟩

def is (t : Token) (s : Symbol) : Bool :=
  t.symbol? = some s

/-- Whether the token marks the end of the input. -/
def isEnd (t : Token) : Bool :=
  t.tokenClass = .endOfInput

/-- The mark of the end of the input at a byte offset. -/
def endOfInput (file : String) (offset : Nat) : Token :=
  ⟨.endOfInput, "", .ofOffsets file offset offset⟩

/-- How a message refers to the token. -/
def describe (t : Token) : String :=
  if t.isEnd then "end of input" else t.lexeme

/-- The token with its class, as a listing shows it. -/
def text (t : Token) : String :=
  "\x7b" ++ t.tokenClass.name ++ " " ++ Text.Quoted.text t.lexeme ++ "\x7d"

end Token

end Frontend
