import TernLang.Parser.Expression

/-! # Parsing statements

A program is a sequence of declarations and statements. A mistake does not end
the parse: the declaration it occurs in is given up, tokens are skipped to the
next place where a statement may start, and parsing goes on, so that one pass
reports every independent mistake. A brace that closes the open block is never
skipped.

`room` and `size` bound nesting and loops as for expressions: a declaration, a
block and a function cost one unit of `room`, a statement two. A declaration
starts only if there are four more units, which leaving it after a mistake
takes; where there are fewer, the mistake is one of the declaration around it.
-/

namespace TernLang

/-- The tree of `for (initial; condition; advance) body`: a block that holds
the initial statement and a `while` loop over the body and the advance. -/
def Stmt.forLoop (initial : Option Stmt) (condition : Expr) (advance : Option Expr) (body : Stmt)
    (line : Nat) : Stmt :=
  let step := advance.toList.map fun expr => Stmt.expression expr expr.line
  .block (initial.toList ++ [.whileLoop condition (.block (body :: step) body.line) line]) line

namespace Parse

/-- A variable declaration after its keyword. -/
def varDecl (size : Nat) (line : Nat) : (room : Nat) → Parse Stmt
  | 0 => tooDeep
  | room + 1 => do
      let (name, _) ← identifier .variableName
      let initial ← if ← accept .equal then some <$> expression size room else pure none
      expect .semicolon .semicolonAfterDeclaration
      pure (.varDecl name initial line)

/-- An expression followed by a semicolon. -/
def expressionStmt (size : Nat) : (room : Nat) → Parse Stmt
  | 0 => tooDeep
  | room + 1 => do
      let expr ← expression size room
      expect .semicolon .semicolonAfterExpression
      pure (.expression expr expr.line)

/-- A print statement after its keyword. -/
def printStmt (expr : Parse Expr) (line : Nat) : Parse Stmt := do
  let value ← expr
  expect .semicolon .semicolonAfterPrint
  pure (.print value line)

/-- A return statement after its keyword. -/
def returnStmt (expr : Parse Expr) (line : Nat) : Parse Stmt := do
  let value ← if ← at? .semicolon then pure none else some <$> expr
  expect .semicolon .semicolonAfterReturn
  pure (.returnValue value line)

/-- An if statement after its keyword; an `else` belongs to the nearest one. -/
def ifStmt (expr : Parse Expr) (branch : Parse Stmt) (line : Nat) : Parse Stmt := do
  expect .leftParen .parenAfterIf
  let condition ← expr
  expect .rightParen .parenAfterIfCondition
  let thenBranch ← branch
  let token ← peek
  match token.kind with
  | .keyword .elseKw => do
      let _ ← next
      let elseBranch ← branch
      pure (.ifElse condition thenBranch (some elseBranch) line)
  | _ => pure (.ifElse condition thenBranch none line)

/-- A while statement after its keyword. -/
def whileStmt (expr : Parse Expr) (body : Parse Stmt) (line : Nat) : Parse Stmt := do
  expect .leftParen .parenAfterWhile
  let condition ← expr
  expect .rightParen .parenAfterWhileCondition
  pure (.whileLoop condition (← body) line)

/-- The first clause of a for statement, with its semicolon. -/
def forInitial (size room : Nat) : Parse (Option Stmt) := do
  let token ← peek
  match token.kind with
  | .symbol .semicolon => do
      let _ ← next
      pure none
  | .keyword .varKw => do
      let _ ← next
      some <$> varDecl size token.line room
  | _ => some <$> expressionStmt size room

/-- The condition of a for statement; a missing one is `true`. -/
def forCondition (expr : Parse Expr) : Parse Expr := do
  let token ← peek
  match token.kind with
  | .symbol .semicolon => pure (.literal (.bool true) token.line)
  | _ => expr

/-- A for statement after its keyword. -/
def forStmt (size room : Nat) (body : Parse Stmt) (line : Nat) : Parse Stmt := do
  expect .leftParen .parenAfterFor
  let initial ← forInitial size room
  let condition ← forCondition (expression size room)
  expect .semicolon .semicolonAfterCondition
  let advance ← if ← at? .rightParen then pure none else some <$> expression size room
  expect .rightParen .parenAfterClauses
  pure (.forLoop initial condition advance (← body) line)

/-- The parameters of a function, up to the closing parenthesis; there is at
least one. A parameter beyond the limit is noted and kept. -/
def parameters : (size : Nat) → List String → Parse (List String)
  | 0, before => pure before
  | size + 1, before => do
      if maxArguments ≤ before.length then note .fewerParameters (← peek)
      let (name, _) ← identifier .parameterName
      if ← accept .comma then parameters size (before ++ [name])
      else pure (before ++ [name])

/-- The name and the parameters of a function, up to the brace of its body. -/
def functionHead (size : Nat) : Parse (String × List String) := do
  let (name, _) ← identifier .functionName
  expect .leftParen .parenAfterFunctionName
  let params ← if ← at? .rightParen then pure [] else parameters size []
  expect .rightParen .parenAfterParameters
  expect .leftBrace .braceBeforeBody
  pure (name, params)

/-- Declarations up to the end, or up to a closing brace if `inBlock`; those
that could not be parsed are left out. -/
def declarations (inBlock : Bool) (declaration : Parse (Option Stmt)) :
    (size : Nat) → Parse (List Stmt)
  | 0 => pure []
  | size + 1 => do
      let token ← peek
      if token.kind == .endOfInput || (inBlock && token.kind == .symbol .rightBrace) then pure []
      else
        let stmt ← declaration
        let others ← declarations inBlock declaration size
        pure (stmt.toList ++ others)

mutual

/-- A declaration or statement, or nothing where a mistake was noted. -/
def declaration (size : Nat) : (room : Nat) → Parse (Option Stmt)
  | 0 | 1 | 2 | 3 | 4 => tooDeep
  | room + 5 => recover do
      let token ← peek
      match token.kind with
      | .keyword .defKw => do
          let _ ← next
          function size token.line (room + 4)
      | .keyword .varKw => do
          let _ ← next
          varDecl size token.line (room + 4)
      | _ => statement size (room + 4)

/-- A function declaration after its keyword. -/
def function (size : Nat) (line : Nat) : (room : Nat) → Parse Stmt
  | 0 => tooDeep
  | room + 1 => do
      let (name, params) ← functionHead size
      pure (.funDecl name params (← block size room) line)

/-- The statements of a block after its opening brace, and the closing one. -/
def block (size : Nat) : (room : Nat) → Parse (List Stmt)
  | 0 => tooDeep
  | room + 1 => do
      let body ← insideBlock (declarations true (declaration size room) size)
      expect .rightBrace .braceAfterBlock
      pure body

def statement (size : Nat) : (room : Nat) → Parse Stmt
  | 0 | 1 => tooDeep
  | room + 2 => do
      let token ← peek
      match token.kind with
      | .keyword .forKw => do
          let _ ← next
          forStmt size room (statement size room) token.line
      | .keyword .ifKw => do
          let _ ← next
          ifStmt (expression size room) (statement size room) token.line
      | .keyword .printKw => do
          let _ ← next
          printStmt (expression size room) token.line
      | .keyword .returnKw => do
          let _ ← next
          returnStmt (expression size room) token.line
      | .keyword .whileKw => do
          let _ ← next
          whileStmt (expression size room) (statement size room) token.line
      | .symbol .leftBrace => do
          let _ ← next
          pure (.block (← block size (room + 1)) token.line)
      | _ => expressionStmt size (room + 1)

end

end Parse

/-- What parsing gives: the statements that could be read, and every mistake. -/
structure Parsed where
  statements : List Stmt
  errors : List SyntaxError

/-- Parses a token list, with nesting limited by `room`. -/
def parse (room : Nat) (tokens : List Token) : Parsed :=
  let program := Parse.declarations false (Parse.declaration tokens.length room) tokens.length
  match program (Cursor.start tokens) with
  | .ok statements cursor => ⟨statements, cursor.errors.toList⟩
  | .error _ cursor => ⟨[], cursor.errors.toList⟩

end TernLang
