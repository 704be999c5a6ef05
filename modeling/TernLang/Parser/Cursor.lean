import TernLang.Parser.Error

/-! # The parser's position

A cursor is the tokens still to be read, the token read last, the mistakes
noticed so far and the number of open blocks. Past the last token the cursor
shows an end-of-input token on the line of the token read last, and an
end-of-input token is never read past, so a token list need not end with one.
-/

namespace TernLang

/-- Where the parser is. -/
structure Cursor where
  rest : List Token
  last : Option Token
  errors : Array SyntaxError
  openBlocks : Nat
  deriving Repr

namespace Cursor

/-- The position in front of a token list. -/
def start (tokens : List Token) : Cursor :=
  ⟨tokens, none, #[], 0⟩

/-- The line of the token read last, or the first line. -/
def lastLine (cursor : Cursor) : Nat :=
  match cursor.last with
  | some token => token.line
  | none => 1

def peek (cursor : Cursor) : Token :=
  match cursor.rest with
  | token :: _ => token
  | [] => ⟨.endOfInput, cursor.lastLine⟩

/-- The position after the next token; an end-of-input token stays. -/
def advance (cursor : Cursor) : Cursor :=
  let token := cursor.peek
  if token.kind = .endOfInput then { cursor with last := some token }
  else { cursor with rest := cursor.rest.tail, last := some token }

def atEnd (cursor : Cursor) : Bool :=
  cursor.peek.kind == .endOfInput

def atSymbol (cursor : Cursor) (symbol : Symbol) : Bool :=
  cursor.peek.kind == .symbol symbol

/-- The next token closes the block that is open. -/
def atClosingBrace (cursor : Cursor) : Bool :=
  0 < cursor.openBlocks && cursor.atSymbol .rightBrace

def report (cursor : Cursor) (error : SyntaxError) : Cursor :=
  { cursor with errors := cursor.errors.push error }

end Cursor

/-- A token after which a statement has certainly ended. -/
def TokenKind.endsStatement : TokenKind → Bool
  | .symbol .semicolon => true
  | .symbol .rightBrace => true
  | _ => false

/-- A keyword that starts a statement. -/
def Keyword.startsStatement : Keyword → Bool
  | .defKw | .varKw | .forKw | .ifKw | .whileKw | .printKw | .returnKw => true
  | _ => false

/-- A token with which a statement certainly starts. -/
def TokenKind.startsStatement : TokenKind → Bool
  | .keyword word => word.startsStatement
  | _ => false

namespace Cursor

/-- Reads tokens until a statement has ended or one is about to start: past a
semicolon or brace, or in front of a statement keyword, the brace that closes
the open block, or the end. -/
def skipStatement : (fuel : Nat) → Cursor → Cursor
  | 0, cursor => cursor
  | fuel + 1, cursor =>
      if cursor.atEnd || cursor.last.any (·.kind.endsStatement) ||
          cursor.peek.kind.startsStatement || cursor.atClosingBrace then cursor
      else skipStatement fuel cursor.advance

/-- Leaves a statement that could not be parsed. At least one token is read,
unless the brace that closes the open block comes next. -/
def synchronize (cursor : Cursor) : Cursor :=
  if cursor.atClosingBrace then cursor
  else skipStatement cursor.rest.length cursor.advance

end Cursor

/-- What stops the parsing of a statement. -/
inductive ParseStop where
  | mistake (error : SyntaxError)
  | tooDeep
  deriving DecidableEq, Repr

/-- A parsing step: it moves the cursor and gives a tree or stops. -/
abbrev Parse := EStateM ParseStop Cursor

namespace Parse

/-- The next token, which stays unread. -/
def peek : Parse Token := fun cursor =>
  .ok cursor.peek cursor

def next : Parse Token := fun cursor =>
  .ok cursor.peek cursor.advance

/-- Reads the given symbol if it comes next. -/
def accept (symbol : Symbol) : Parse Bool := fun cursor =>
  if cursor.atSymbol symbol then .ok true cursor.advance else .ok false cursor

/-- Whether the given symbol comes next. -/
def at? (symbol : Symbol) : Parse Bool := fun cursor =>
  .ok (cursor.atSymbol symbol) cursor

/-- Stops because something else was expected at the next token. -/
def fail {α : Type} (expected : Expectation) : Parse α := fun cursor =>
  .error (.mistake ⟨.missing expected, cursor.peek⟩) cursor

/-- Stops because the program is nested too deeply. -/
def tooDeep {α : Type} : Parse α := fun cursor =>
  .error .tooDeep cursor

/-- Notes a mistake at a token and goes on. -/
def note (expected : Expectation) (token : Token) : Parse Unit := fun cursor =>
  .ok () (cursor.report ⟨.missing expected, token⟩)

/-- Reads the given symbol, which must come next. -/
def expect (symbol : Symbol) (expected : Expectation) : Parse Unit := fun cursor =>
  if cursor.atSymbol symbol then .ok () cursor.advance else fail expected cursor

/-- Reads an identifier, which must come next: its name and line. -/
def identifier (expected : Expectation) : Parse (String × Nat) := fun cursor =>
  match cursor.peek.kind with
  | .identifier name => .ok (name, cursor.peek.line) cursor.advance
  | _ => fail expected cursor

/-- Runs a step inside one more block, and leaves that block however the step
ends. -/
def insideBlock {α : Type} (step : Parse α) : Parse α := fun cursor =>
  match step { cursor with openBlocks := cursor.openBlocks + 1 } with
  | .ok a after => .ok a { after with openBlocks := after.openBlocks - 1 }
  | .error stop after => .error stop { after with openBlocks := after.openBlocks - 1 }

/-- Runs a step; where it stops, notes the mistake, leaves the statement and
gives nothing. -/
def recover {α : Type} (step : Parse α) : Parse (Option α) := fun cursor =>
  match step cursor with
  | .ok a after => .ok (some a) after
  | .error (.mistake error) after => .ok none (after.report error).synchronize
  | .error .tooDeep after =>
      .ok none (after.report ⟨.nestedTooDeeply, after.peek⟩).synchronize

end Parse

end TernLang
