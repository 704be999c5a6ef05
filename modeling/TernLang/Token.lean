import TernLang.Number.Decimal

/-! # Tokens

The words of a program: punctuation, keywords, names, numbers and strings, each
with the line it starts on. A token's kind determines its lexeme, the exact
characters it stands for in the source.
-/

namespace TernLang

/-- Punctuation and operators. -/
inductive Symbol where
  | leftParen | rightParen | leftBrace | rightBrace | leftBracket | rightBracket
  | comma | dot | semicolon | colon
  | plus | minus | star | slash | bang | equal
  | equalEqual | bangEqual | less | lessEqual | greater | greaterEqual
  | plusPlus | minusMinus
  deriving DecidableEq, Repr

namespace Symbol

def text : Symbol → String
  | leftParen => "("
  | rightParen => ")"
  | leftBrace => "\x7b"
  | rightBrace => "\x7d"
  | leftBracket => "["
  | rightBracket => "]"
  | comma => ","
  | dot => "."
  | semicolon => ";"
  | colon => ":"
  | plus => "+"
  | minus => "-"
  | star => "*"
  | slash => "/"
  | bang => "!"
  | equal => "="
  | equalEqual => "=="
  | bangEqual => "!="
  | less => "<"
  | lessEqual => "<="
  | greater => ">"
  | greaterEqual => ">="
  | plusPlus => "++"
  | minusMinus => "--"

/-- The symbol written with two characters, if there is one. -/
def ofPair? : Char → Char → Option Symbol
  | '=', '=' => some equalEqual
  | '!', '=' => some bangEqual
  | '<', '=' => some lessEqual
  | '>', '=' => some greaterEqual
  | '+', '+' => some plusPlus
  | '-', '-' => some minusMinus
  | _, _ => none

/-- The symbol written with one character, if there is one. -/
def ofChar? : Char → Option Symbol
  | '(' => some leftParen
  | ')' => some rightParen
  | '{' => some leftBrace
  | '}' => some rightBrace
  | '[' => some leftBracket
  | ']' => some rightBracket
  | ',' => some comma
  | '.' => some dot
  | ';' => some semicolon
  | ':' => some colon
  | '+' => some plus
  | '-' => some minus
  | '*' => some star
  | '/' => some slash
  | '!' => some bang
  | '=' => some equal
  | '<' => some less
  | '>' => some greater
  | _ => none

end Symbol

/-- Reserved words. -/
inductive Keyword where
  | defKw | varKw | forKw | ifKw | elseKw | printKw | returnKw | whileKw
  | andKw | orKw | trueKw | falseKw | nullKw
  deriving DecidableEq, Repr

namespace Keyword

def text : Keyword → String
  | defKw => "def"
  | varKw => "var"
  | forKw => "for"
  | ifKw => "if"
  | elseKw => "else"
  | printKw => "print"
  | returnKw => "return"
  | whileKw => "while"
  | andKw => "and"
  | orKw => "or"
  | trueKw => "true"
  | falseKw => "false"
  | nullKw => "null"

def all : List Keyword :=
  [defKw, varKw, forKw, ifKw, elseKw, printKw, returnKw, whileKw, andKw, orKw, trueKw, falseKw,
    nullKw]

def ofText? (word : String) : Option Keyword :=
  all.find? (·.text == word)

end Keyword

/-- What a token is. A number is kept as its decimal digits before and after
the point, a string as the characters between its quotes. -/
inductive TokenKind where
  | symbol (symbol : Symbol)
  | keyword (word : Keyword)
  | identifier (name : String)
  | number (whole fraction : List Char)
  | string (contents : String)
  | endOfInput
  deriving DecidableEq, Repr

namespace TokenKind

/-- The characters of a number literal: the point is written only in front of
a fraction. -/
def numberText (whole fraction : List Char) : String :=
  String.ofList (if fraction.isEmpty then whole else whole ++ '.' :: fraction)

def numberValue (whole fraction : List Char) : Float :=
  (Number.Decimal.ofDigits whole fraction).toFloat false

/-- The characters that a token stands for in the source. -/
def lexeme : TokenKind → String
  | symbol s => s.text
  | keyword k => k.text
  | identifier name => name
  | number whole fraction => numberText whole fraction
  | string contents => "\"" ++ contents ++ "\""
  | endOfInput => ""

end TokenKind

/-- A token and the line on which it starts. -/
structure Token where
  kind : TokenKind
  line : Nat
  deriving DecidableEq, Repr

namespace Token

/-- The characters that the token stands for. -/
def lexeme (token : Token) : String :=
  token.kind.lexeme

/-- How a message refers to the token. -/
def describe (token : Token) : String :=
  match token.kind with
  | .endOfInput => "end of input"
  | kind => "'" ++ kind.lexeme ++ "'"

end Token

end TernLang
