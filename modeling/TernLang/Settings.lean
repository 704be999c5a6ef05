import TernLang.Text.Blank
import TernLang.Text.Digits
import TernLang.Text.Quoted

/-! # Settings

Two environment variables set the bounds of the interpreter: the limit on calls
in progress, a positive whole number, and the level of its log. A missing or
blank limit means the default, anything else that is no positive number is an
error; an unknown level means the default.
-/

namespace TernLang

/-- The texts of the variables that are set. -/
structure Variables where
  maxCallDepth : Option String
  logLevel : Option String
  deriving DecidableEq, Repr

/-- Why a setting cannot be used. -/
inductive SettingError where
  | notInteger (name : String) (text : String)
  | notPositive (name : String) (value : Int)
  deriving DecidableEq, Repr

def SettingError.message : SettingError → String
  | notInteger name text => name ++ " must be an integer, got " ++ Text.quoted text
  | notPositive name value => s!"{name} must be positive, got {value}"

namespace Settings

/-- The most digits that an integer may have. -/
def maxDigits : Nat := 4300

/-- The integer that a text writes: blanks around it are ignored, a sign may
stand in front, and single underscores may separate digits. -/
def readInteger? (text : String) : Option Int := do
  let (negative, rest) := Text.splitSign (Text.trim text.toList)
  let digits ← Text.digits? rest
  if maxDigits < digits.length then none
  else
    let size := Text.ofDigits digits
    pure (if negative then -(size : Int) else size)

/-- A setting that must be a positive integer. -/
def positive (name : String) (text : Option String) (default : Int) : Except SettingError Int :=
  match text with
  | none => .ok default
  | some text =>
      if (Text.trim text.toList).isEmpty then .ok default
      else
        match readInteger? text with
        | none => .error (.notInteger name text)
        | some value => if value < 1 then .error (.notPositive name value) else .ok value

/-- The limit on calls in progress if none is set. -/
def defaultMaxCallDepth : Int := 255

def maxCallDepth (vars : Variables) : Except SettingError Int :=
  positive "TERN_MAX_CALL_DEPTH" vars.maxCallDepth defaultMaxCallDepth

/-- The capital letter of a character, if that is an ASCII letter. The dotless
i and the long s are the two letters beyond ASCII that have one. -/
def upper (c : Char) : Char :=
  if c == 'ı' then 'I' else if c == 'ſ' then 'S' else c.toUpper

/-- The names of the log levels and their numbers. -/
def levels : List (String × Nat) :=
  [("CRITICAL", 50), ("FATAL", 50), ("ERROR", 40), ("WARN", 30), ("WARNING", 30), ("INFO", 20),
    ("DEBUG", 10), ("NOTSET", 0)]

/-- The log level if none is set, or an unknown one. -/
def defaultLevel : Nat := 30

def logLevel (vars : Variables) : Nat :=
  match vars.logLevel with
  | none => defaultLevel
  | some text =>
      let name := String.ofList ((Text.trim text.toList).map upper)
      (levels.lookup name).getD defaultLevel

end Settings

end TernLang
