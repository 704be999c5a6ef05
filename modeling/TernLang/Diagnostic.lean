import TernLang.Fault
import TernLang.Parser.Error
import TernLang.Token.Lexer

/-! # Diagnostics

The uniform report of what is wrong with a program, whichever stage found it.
-/

namespace TernLang

/-- The stage that found a problem. -/
inductive Phase where
  | lex | parse | runtime
  deriving DecidableEq, Repr

def Phase.text : Phase → String
  | lex => "lex"
  | parse => "parse"
  | runtime => "runtime"

/-- A problem of a program. -/
structure Diagnostic where
  phase : Phase
  line : Option Nat
  message : String
  kind : String
  deriving DecidableEq, Repr

/-- A message with its line in front, if there is one. -/
def withLine (line : Option Nat) (message : String) : String :=
  match line with
  | some n => s!"[line {n}] {message}"
  | none => message

namespace Diagnostic

def text (diagnostic : Diagnostic) : String :=
  withLine diagnostic.line (diagnostic.kind ++ ": " ++ diagnostic.message)

def ofLexError (error : LexError) : Diagnostic :=
  ⟨.lex, some error.line, error.message, "LexError"⟩

def ofSyntaxError (error : SyntaxError) : Diagnostic :=
  ⟨.parse, some error.line, error.message, "ParseError"⟩

def ofFault (fault : Fault) (line : Option Nat) : Diagnostic :=
  ⟨.runtime, line, fault.message, fault.kind.text⟩

end Diagnostic

end TernLang
