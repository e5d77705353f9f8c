import LoxLang.Token.Basic

/-!
# Syntax errors

* `Expectation` — what the grammar asks for at one place.
* `SyntaxError` — something expected is missing, a list is too long, or the left side of an
  assignment is no variable.  Only the first of these stops a statement from being read.
* `SyntaxReport` — an error with the tokens from the offending one on, so that its place in the
  input is known; there are none when the input ended too early.
-/

namespace LoxLang

/-- What the grammar asks for at one place. -/
inductive Expectation where
  | expression
  | endOfExpression
  | closeParenAfterExpression
  | closeParenAfterArguments
  | variableName
  | semicolonAfterVariable
  | semicolonAfterExpression
  | semicolonAfterPrint
  | semicolonAfterReturn
  | closeBrace
  | functionName
  | openParenAfterFunctionName
  | parameterName
  | closeParenAfterParameters
  | openBraceOfFunction
  | openParenAfterIf
  | closeParenAfterIf
  | openParenAfterWhile
  | closeParenAfterWhile
  | openParenAfterFor
  | semicolonAfterForCondition
  | closeParenAfterFor
  deriving DecidableEq, Repr

/-- The wording of an expectation. -/
def Expectation.text : Expectation → String
  | expression => "expression"
  | endOfExpression => "end of expression"
  | closeParenAfterExpression => "')' after expression"
  | closeParenAfterArguments => "')' after arguments"
  | variableName => "variable name"
  | semicolonAfterVariable => "';' after variable declaration"
  | semicolonAfterExpression => "';' after expression"
  | semicolonAfterPrint => "';' after value"
  | semicolonAfterReturn => "';' after return value"
  | closeBrace => "'\x7d' after block"
  | functionName => "function name"
  | openParenAfterFunctionName => "'(' after function name"
  | parameterName => "parameter name"
  | closeParenAfterParameters => "')' after parameters"
  | openBraceOfFunction => "'\x7b' before function body"
  | openParenAfterIf => "'(' after 'if'"
  | closeParenAfterIf => "')' after if condition"
  | openParenAfterWhile => "'(' after 'while'"
  | closeParenAfterWhile => "')' after condition"
  | openParenAfterFor => "'(' after 'for'"
  | semicolonAfterForCondition => "';' after loop condition"
  | closeParenAfterFor => "')' after for clauses"

/-- What is wrong with the order of tokens. -/
inductive SyntaxError where
  | expected (what : Expectation)
  | tooManyParameters
  | tooManyArguments
  | invalidTarget
  deriving DecidableEq, Repr

/-- The wording of a syntax error. -/
def SyntaxError.message : SyntaxError → String
  | expected what => "Expect " ++ what.text ++ "."
  | tooManyParameters => "Can't have more than 255 parameters."
  | tooManyArguments => "Can't have more than 255 arguments."
  | invalidTarget => "Invalid assignment target."

/-- A syntax error at a place. -/
structure SyntaxReport where
  error : SyntaxError
  /-- The tokens from the offending one on. -/
  ahead : List Token
  deriving DecidableEq, Repr

/-- The token that a report names, given the one after all others. -/
def SyntaxReport.place (endMark : Token) (report : SyntaxReport) : Token :=
  report.ahead.head?.getD endMark

end LoxLang
