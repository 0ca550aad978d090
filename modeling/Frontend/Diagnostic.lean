import Frontend.Position
import Frontend.Text.Quoted

/-!
# Diagnostics

A fault is a cause for which something was refused. It carries the text of the token it is about, and
where several constructs can have it, the construct as context. A diagnostic is a fault at a place.
-/

namespace Frontend

/-- The causes for which a tree cannot be built or evaluated. -/
inductive Fault where
  /-- A token that is no operator stands where one is applied. -/
  | unexpectedToken (token : String)
  /-- A declaration lacks its name. -/
  | expectedName (token : String)
  /-- A declaration goes on with neither a value nor its end. -/
  | expectedAssignment (token : String)
  | missingSemicolon (context token : String)
  | missingOpeningParen (context token : String)
  | missingClosingParen (context token : String)
  | missingOpeningCurly (context token : String)
  /-- An expression begins with a token that begins none. -/
  | noOperand (token : String)
  /-- A number is no signed 64-bit integer. -/
  | notInteger (token : String)
  /-- A truth value is neither of the two. -/
  | notTruth (token : String)
  /-- A kind of tree has no value yet. -/
  | notEvaluable (node : String)
  deriving DecidableEq

namespace Fault

def name : Fault → String
  | unexpectedToken _ => "UnexpectedToken"
  | expectedName _ => "ExpectedIdentifier"
  | expectedAssignment _ => "ExpectedAssignment"
  | missingSemicolon _ _ => "MissingSemicolon"
  | missingOpeningParen _ _ => "MissingOpeningParen"
  | missingClosingParen _ _ => "MissingClosingParen"
  | missingOpeningCurly _ _ => "MissingOpeningCurly"
  | noOperand _ => "NoPrefixHandler"
  | notInteger _ => "NumberParseError"
  | notTruth _ => "BooleanParseError"
  | notEvaluable _ => "NotImplementedError"

def message : Fault → String
  | unexpectedToken t => "unexpected token: " ++ Text.Quoted.text t
  | expectedName t => "var error - expected identifier, got " ++ Text.Quoted.text t
  | expectedAssignment t =>
    "var error - expected assignment after identifier, got " ++ Text.Quoted.text t
  | missingSemicolon c t =>
    c ++ " error - expected semicolon after expression, got " ++ Text.Quoted.text t
  | missingOpeningParen c t => c ++ " error - missing opening paren, got " ++ Text.Quoted.text t
  | missingClosingParen c t => c ++ " error - missing closing paren, got " ++ Text.Quoted.text t
  | missingOpeningCurly c t =>
    c ++ " error - missing opening curly brace, got " ++ Text.Quoted.text t
  | noOperand t => "no prefix parsing function for token " ++ Text.Quoted.text t
  | notInteger t => "error parsing integer literal: " ++ Text.Quoted.text t
  | notTruth t => "error parsing boolean literal: " ++ Text.Quoted.text t
  | notEvaluable n => "evaluation of " ++ Text.Quoted.text n ++ " is not implemented"

def tip? : Fault → Option String
  | unexpectedToken t => some ("Unexpected token: `" ++ t ++ "`, did you miss a semicolon?")
  | expectedName t => some ("Expected a variable name after `var`, found `" ++ t ++ "`")
  | expectedAssignment t =>
    some ("Expected `=` or `;` after the variable name, found `" ++ t ++ "`")
  | missingSemicolon _ t => some ("Expected `;`, found `" ++ t ++ "`")
  | missingOpeningParen _ t => some ("Expected `(`, found `" ++ t ++ "`")
  | missingClosingParen _ t => some ("Expected `)`, found `" ++ t ++ "`")
  | missingOpeningCurly _ t => some ("Expected `\x7b`, found `" ++ t ++ "`")
  | noOperand t => some ("`" ++ t ++ "` cannot start an expression")
  | notInteger t =>
    some ("Invalid integer: `" ++ t ++ "`, is it above the integer limit or not whole?")
  | notTruth _ => none
  | notEvaluable n => some ("Evaluating `" ++ n ++ "` has not been implemented")

end Fault

/-- A fault at a place. -/
structure Diagnostic where
  fault : Fault
  position : Position
  deriving DecidableEq

def Diagnostic.text (d : Diagnostic) : String :=
  d.fault.message ++ " at " ++ d.position.text

end Frontend
