import TernLang.Token

/-! # Syntax errors

What the parser was looking for when it met a token it could not use, and the
wording of the report.
-/

namespace TernLang

/-- The most parameters a function and arguments a call may have. -/
def maxArguments : Nat := 255

/-- What the grammar allows at the place of an error. -/
inductive Expectation where
  | expression
  | functionName | parenAfterFunctionName | fewerParameters | parameterName
  | parenAfterParameters | braceBeforeBody
  | variableName | semicolonAfterDeclaration
  | parenAfterFor | semicolonAfterCondition | parenAfterClauses
  | parenAfterIf | parenAfterIfCondition
  | parenAfterWhile | parenAfterWhileCondition
  | semicolonAfterPrint | semicolonAfterReturn | semicolonAfterExpression
  | braceAfterBlock
  | assignmentTarget | steppedVariable (lexeme : String)
  | methodName | fewerArguments | parenAfterArguments
  | bracketAfterSlice | bracketAfterIndex | bracketAfterElements | parenAfterExpression
  deriving DecidableEq, Repr

/-- How a message names what was expected. -/
def Expectation.text : Expectation → String
  | expression => "expression"
  | functionName => "function name"
  | parenAfterFunctionName => "'(' after function name"
  | fewerParameters => s!"at most {maxArguments} parameters"
  | parameterName => "parameter name"
  | parenAfterParameters => "')' after parameters"
  | braceBeforeBody => "'\x7b' before function body"
  | variableName => "variable name"
  | semicolonAfterDeclaration => "';' after variable declaration"
  | parenAfterFor => "'(' after 'for'"
  | semicolonAfterCondition => "';' after loop condition"
  | parenAfterClauses => "')' after for clauses"
  | parenAfterIf => "'(' after 'if'"
  | parenAfterIfCondition => "')' after if condition"
  | parenAfterWhile => "'(' after 'while'"
  | parenAfterWhileCondition => "')' after while condition"
  | semicolonAfterPrint => "';' after value"
  | semicolonAfterReturn => "';' after return value"
  | semicolonAfterExpression => "';' after expression"
  | braceAfterBlock => "'\x7d' after block"
  | assignmentTarget => "assignment target before '='"
  | steppedVariable lexeme => "variable before '" ++ lexeme ++ "'"
  | methodName => "method name after '.'"
  | fewerArguments => s!"at most {maxArguments} arguments"
  | parenAfterArguments => "')' after arguments"
  | bracketAfterSlice => "']' after slice"
  | bracketAfterIndex => "']' after index"
  | bracketAfterElements => "']' after list elements"
  | parenAfterExpression => "')' after expression"

/-- Why a program is not well formed. -/
inductive SyntaxError.Cause where
  | missing (expected : Expectation)
  | nestedTooDeeply
  deriving DecidableEq, Repr

/-- A mistake in a program and the token at which it was noticed. -/
structure SyntaxError where
  cause : SyntaxError.Cause
  found : Token
  deriving DecidableEq, Repr

namespace SyntaxError

def line (error : SyntaxError) : Nat :=
  error.found.line

/-- What the message says was expected. -/
def expectation (error : SyntaxError) : Expectation :=
  match error.cause with
  | .missing expected => expected
  | .nestedTooDeeply => .expression

def message (error : SyntaxError) : String :=
  match error.cause with
  | .missing expected => "Expected " ++ expected.text ++ " but found " ++ error.found.describe
  | .nestedTooDeeply => "Expression nested too deeply"

end SyntaxError

end TernLang
