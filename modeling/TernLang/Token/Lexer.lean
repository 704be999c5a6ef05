import TernLang.Token
import TernLang.Text.Quoted

/-! # From source text to tokens

`lexStep` looks at the front of the remaining text and takes the longest piece
there: a gap (blanks, a line feed, a comment) or a token. `lex` repeats it to the
end of the text. The first piece that is neither stops it; the tokens in front
of that point are kept.
-/

namespace TernLang

/-- Why a text has no further token. -/
inductive LexError.Cause where
  | unexpected (c : Char)
  | unterminatedString
  deriving DecidableEq, Repr

/-- A text that cannot be split into tokens, and the line of the first place
where it cannot. -/
structure LexError where
  cause : LexError.Cause
  line : Nat
  deriving DecidableEq, Repr

def LexError.message (error : LexError) : String :=
  match error.cause with
  | .unexpected c => "Unexpected character " ++ Text.quoted (String.singleton c)
  | .unterminatedString => "Unterminated string"

/-- What splitting a text into tokens gives: the tokens, and the error that
stopped it, if any. -/
structure Lexed where
  tokens : List Token
  error? : Option LexError
  deriving DecidableEq, Repr

namespace Lexed

/-- The result with one more token in front. -/
def push (token : Token) (lexed : Lexed) : Lexed :=
  { lexed with tokens := token :: lexed.tokens }

end Lexed

/-- White space inside a line. -/
def isSpace (c : Char) : Bool :=
  c == ' ' || c == '\t' || c == '\r' || c == '\x0c' || c == '\x0b'

/-- A character that can start a name. -/
def isNameStart (c : Char) : Bool :=
  c.isAlpha || c == '_'

/-- A character that can continue a name. -/
def isNameChar (c : Char) : Bool :=
  c.isAlphanum || c == '_'

/-- The kind of a name: the keyword of that spelling, or else an identifier. -/
def wordKind (word : List Char) : TokenKind :=
  let name := String.ofList word
  match Keyword.ofText? name with
  | some k => .keyword k
  | none => .identifier name

/-- The front of a text: a gap or a token, the line feeds in it and what
follows, or the reason why it is neither. -/
inductive LexStep where
  | gap (lineFeeds : Nat) (rest : List Char)
  | token (kind : TokenKind) (lineFeeds : Nat) (rest : List Char)
  | stuck (cause : LexError.Cause)
  deriving DecidableEq, Repr

/-- The fraction of a number: a point and at least one digit, or nothing. -/
def lexFraction : List Char → List Char × List Char
  | '.' :: digit :: rest =>
      if digit.isDigit then
        (digit :: rest.takeWhile Char.isDigit, rest.dropWhile Char.isDigit)
      else ([], '.' :: digit :: rest)
  | cs => ([], cs)

/-- A number literal, whose first digit is given. -/
def lexNumber (first : Char) (rest : List Char) : LexStep :=
  let (fraction, remaining) := lexFraction (rest.dropWhile Char.isDigit)
  .token (.number (first :: rest.takeWhile Char.isDigit) fraction) 0 remaining

/-- A string literal after its opening quote. -/
def lexString (rest : List Char) : LexStep :=
  let contents := rest.takeWhile (· != '"')
  match rest.dropWhile (· != '"') with
  | [] => .stuck .unterminatedString
  | _ :: remaining => .token (.string (String.ofList contents)) (contents.count '\n') remaining

/-- A symbol, the longer one where two start alike. -/
def lexSymbol (c : Char) (rest : List Char) : LexStep :=
  let single :=
    match Symbol.ofChar? c with
    | some s => LexStep.token (.symbol s) 0 rest
    | none => .stuck (.unexpected c)
  match rest with
  | [] => single
  | next :: remaining =>
      match Symbol.ofPair? c next with
      | some s => .token (.symbol s) 0 remaining
      | none => single

/-- The longest piece at the front of a text that starts with `c`. -/
def lexStep (c : Char) (rest : List Char) : LexStep :=
  if c == '\n' then .gap 1 rest
  else if isSpace c then .gap 0 (rest.dropWhile isSpace)
  else if c == '/' && rest.head? == some '/' then .gap 0 (rest.dropWhile (· != '\n'))
  else if c.isDigit then lexNumber c rest
  else if c == '"' then lexString rest
  else if isNameStart c then
    .token (wordKind (c :: rest.takeWhile isNameChar)) 0 (rest.dropWhile isNameChar)
  else lexSymbol c rest

/-- Splits a text whose first character is on line `line`; every step takes at
least one character, so the length of the text bounds the steps. -/
def lexFrom : (fuel : Nat) → (line : Nat) → List Char → Lexed
  | _, line, [] => ⟨[⟨.endOfInput, line⟩], none⟩
  | 0, line, c :: _ => ⟨[], some ⟨.unexpected c, line⟩⟩
  | fuel + 1, line, c :: rest =>
      match lexStep c rest with
      | .gap lineFeeds remaining => lexFrom fuel (line + lineFeeds) remaining
      | .token kind lineFeeds remaining =>
          (lexFrom fuel (line + lineFeeds) remaining).push ⟨kind, line⟩
      | .stuck cause => ⟨[], some ⟨cause, line⟩⟩

/-- The tokens of a source text, closed by an end-of-input token. -/
def lex (source : String) : Lexed :=
  lexFrom source.length 1 source.toList

end TernLang
