import TernLang.Parser.Cursor
import TernLang.Syntax

/-! # Parsing expressions

One function per level of the grammar, from assignment, which binds loosest,
to primary expressions:

    assignment → or → and → equality → comparison → term → factor
               → unary → call → primary

Every level reads its operands one level tighter and then as many of its own
operators as follow, so binary operators associate to the left; assignment
associates to the right.

Two bounds keep the functions total. `room` is the nesting that is left: a
level costs one unit of it, a level of binary operators two, and a program that
needs more is rejected as nested too deeply. `size` bounds the loops; a loop
reads a token in each pass, so the number of tokens is enough.
-/

namespace TernLang

namespace Parse

/-- The operators of one level, joined to the left: `pick` recognises them and
`join` builds the node from the left operand, the operator's token and the
right operand. -/
def chain {α : Type} (pick : TokenKind → Option α) (join : Expr → Token → α → Expr → Expr)
    (operand : Parse Expr) : (size : Nat) → Expr → Parse Expr
  | 0, left => pure left
  | size + 1, left => do
      let token ← peek
      match pick token.kind with
      | none => pure left
      | some op => do
          let _ ← next
          let right ← operand
          chain pick join operand size (join left token op right)

/-- The node of a binary operator, on the operator's line. -/
def joinBinary (left : Expr) (token : Token) (op : BinaryOp) (right : Expr) : Expr :=
  .binary left op right token.line

/-- The node of a logical operator, on the line of its left operand. -/
def joinLogical (left : Expr) (_ : Token) (op : LogicalOp) (right : Expr) : Expr :=
  .logical left op right left.line

def pickOr : TokenKind → Option LogicalOp
  | .keyword .orKw => some .or
  | _ => none

def pickAnd : TokenKind → Option LogicalOp
  | .keyword .andKw => some .and
  | _ => none

def pickEquality : TokenKind → Option BinaryOp
  | .symbol .bangEqual => some .notEqual
  | .symbol .equalEqual => some .equal
  | _ => none

def pickComparison : TokenKind → Option BinaryOp
  | .symbol .greater => some .greater
  | .symbol .greaterEqual => some .greaterEqual
  | .symbol .less => some .less
  | .symbol .lessEqual => some .lessEqual
  | _ => none

def pickTerm : TokenKind → Option BinaryOp
  | .symbol .minus => some .subtract
  | .symbol .plus => some .add
  | _ => none

def pickFactor : TokenKind → Option BinaryOp
  | .symbol .slash => some .divide
  | .symbol .star => some .multiply
  | _ => none

/-- The operators in front of an operand. -/
def pickUnary : TokenKind → Option UnaryOp
  | .symbol .bang => some .not
  | .symbol .minus => some .negate
  | _ => none

/-- The operators behind a variable. -/
def pickStep : TokenKind → Option Step
  | .symbol .plusPlus => some .up
  | .symbol .minusMinus => some .down
  | _ => none

/-- The arguments of a call, up to the closing parenthesis; there is at least
one. An argument beyond the limit is noted and kept. -/
def arguments (argument : Parse Expr) : (size : Nat) → List Expr → Parse (List Expr)
  | 0, before => pure before
  | size + 1, before => do
      if maxArguments ≤ before.length then note .fewerArguments (← peek)
      let value ← argument
      if ← accept .comma then arguments argument size (before ++ [value])
      else pure (before ++ [value])

/-- A call after its opening parenthesis. -/
def finishCall (argument : Parse Expr) (size : Nat) (callee : Expr) (line : Nat) :
    Parse Expr := do
  let values ← if ← at? .rightParen then pure [] else arguments argument size []
  expect .rightParen .parenAfterArguments
  pure (.call callee values line)

/-- What follows the colon of a slice. -/
def finishSlice (bound : Parse Expr) (target : Expr) (first : Option Expr) (line : Nat) :
    Parse Expr := do
  let last ← if ← at? .rightBracket then pure none else some <$> bound
  expect .rightBracket .bracketAfterSlice
  pure (.slice target first last line)

/-- An index or a slice after its opening bracket: it is a slice if there is a
colon. -/
def finishAccess (bound : Parse Expr) (target : Expr) (line : Nat) : Parse Expr := do
  if ← accept .colon then finishSlice bound target none line
  else
    let first ← bound
    if ← accept .colon then finishSlice bound target (some first) line
    else
      expect .rightBracket .bracketAfterIndex
      pure (.index target first line)

/-- The calls, method names and accesses that follow an expression. -/
def accesses (inner : Parse Expr) (size : Nat) : (passes : Nat) → Expr → Parse Expr
  | 0, target => pure target
  | passes + 1, target => do
      let token ← peek
      match token.kind with
      | .symbol .leftParen => do
          let _ ← next
          accesses inner size passes (← finishCall inner size target token.line)
      | .symbol .dot => do
          let _ ← next
          let (name, line) ← identifier .methodName
          accesses inner size passes (.member target name line)
      | .symbol .leftBracket => do
          let _ ← next
          accesses inner size passes (← finishAccess inner target token.line)
      | _ => pure target

/-- The elements of a list, up to the closing bracket; a comma may follow the
last one. -/
def elements (element : Parse Expr) : (size : Nat) → List Expr → Parse (List Expr)
  | 0, before => pure before
  | size + 1, before => do
      if ← at? .rightBracket then pure before
      else
        let value ← element
        if ← accept .comma then elements element size (before ++ [value])
        else pure (before ++ [value])

/-- The assignment of a value to what stands left of the equals sign. If that
is no variable, the mistake is noted and the left side is kept. -/
def finishAssign (target : Expr) (equals : Token) (value : Expr) : Parse Expr :=
  match target with
  | .var name line => pure (.assign name value line)
  | _ => do
      note .assignmentTarget equals
      pure target

/-- The step of what stands left of `++` or `--`, as for an assignment. -/
def finishStep (target : Expr) (token : Token) (step : Step) : Parse Expr :=
  match target with
  | .var name line => pure (.increment name step line)
  | _ => do
      note (.steppedVariable token.lexeme) token
      pure target

mutual

def expression (size : Nat) : (room : Nat) → Parse Expr
  | 0 => tooDeep
  | room + 1 => assignment size room

/-- An assignment, a step of a variable, or any tighter expression. -/
def assignment (size : Nat) : (room : Nat) → Parse Expr
  | 0 => tooDeep
  | room + 1 => do
      let target ← disjunction size room
      let token ← peek
      match token.kind with
      | .symbol .equal => do
          let _ ← next
          finishAssign target token (← assignment size room)
      | kind =>
          match pickStep kind with
          | some step => do
              let _ ← next
              finishStep target token step
          | none => pure target

def disjunction (size : Nat) : (room : Nat) → Parse Expr
  | 0 => tooDeep
  | room + 1 => do
      chain pickOr joinLogical (conjunction size room) size (← conjunction size room)

def conjunction (size : Nat) : (room : Nat) → Parse Expr
  | 0 => tooDeep
  | room + 1 => do
      chain pickAnd joinLogical (equality size room) size (← equality size room)

def equality (size : Nat) : (room : Nat) → Parse Expr
  | 0 | 1 => tooDeep
  | room + 2 => do
      chain pickEquality joinBinary (comparison size room) size (← comparison size room)

/-- Operands joined by order comparisons. -/
def comparison (size : Nat) : (room : Nat) → Parse Expr
  | 0 | 1 => tooDeep
  | room + 2 => do
      chain pickComparison joinBinary (term size room) size (← term size room)

def term (size : Nat) : (room : Nat) → Parse Expr
  | 0 | 1 => tooDeep
  | room + 2 => do
      chain pickTerm joinBinary (factor size room) size (← factor size room)

/-- Operands joined by `*` and `/`. -/
def factor (size : Nat) : (room : Nat) → Parse Expr
  | 0 | 1 => tooDeep
  | room + 2 => do
      chain pickFactor joinBinary (unary size room) size (← unary size room)

/-- An operand with signs in front. -/
def unary (size : Nat) : (room : Nat) → Parse Expr
  | 0 => tooDeep
  | room + 1 => do
      let token ← peek
      match pickUnary token.kind with
      | some op => do
          let _ ← next
          pure (.unary op (← unary size room) token.line)
      | none => call size room

/-- A primary expression with calls, method names and accesses behind. -/
def call (size : Nat) : (room : Nat) → Parse Expr
  | 0 => tooDeep
  | room + 1 => do
      accesses (bracketed size room) size size (← primary size room)

/-- An expression inside the brackets of a call or an access. -/
def bracketed (size : Nat) : (room : Nat) → Parse Expr
  | 0 => tooDeep
  | room + 1 => expression size room

/-- A constant, a variable, an expression in parentheses or a list. -/
def primary (size : Nat) : (room : Nat) → Parse Expr
  | 0 => tooDeep
  | room + 1 => do
      let token ← peek
      match token.kind with
      | .keyword .trueKw => do
          let _ ← next
          pure (.literal (.bool true) token.line)
      | .keyword .falseKw => do
          let _ ← next
          pure (.literal (.bool false) token.line)
      | .keyword .nullKw => do
          let _ ← next
          pure (.literal .null token.line)
      | .number whole fraction => do
          let _ ← next
          pure (.literal (.number (TokenKind.numberValue whole fraction)) token.line)
      | .string contents => do
          let _ ← next
          pure (.literal (.string contents) token.line)
      | .identifier name => do
          let _ ← next
          pure (.var name token.line)
      | .symbol .leftParen => do
          let _ ← next
          let inner ← expression size room
          expect .rightParen .parenAfterExpression
          pure (.grouping inner token.line)
      | .symbol .leftBracket => do
          let _ ← next
          let values ← elements (expression size room) size []
          expect .rightBracket .bracketAfterElements
          pure (.list values token.line)
      | _ => fail .expression

end

end Parse

end TernLang
