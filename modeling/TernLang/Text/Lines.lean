/-! # Lines of a document

An editor ends a line at a line feed, a carriage return, the two together, a
vertical tab, a form feed, an information separator of rank two to four, the
next-line control and the two Unicode separators. (The lexer ends a line at a
line feed only.) `lines` keeps the terminator of each line beside its text, so
that nothing of the document is lost.
-/

namespace TernLang.Text

/-- A line of a document: its text and the characters that end it, none for a
last line without terminator. -/
structure Line where
  text : List Char
  ending : List Char
  deriving DecidableEq, Repr

namespace Line

def full (line : Line) : List Char :=
  line.text ++ line.ending

/-- The line with one more character in front. -/
def push (c : Char) (line : Line) : Line :=
  { line with text := c :: line.text }

end Line

/-- A character that ends a line. -/
def isLineEnd (c : Char) : Bool :=
  c == '\n' || c == '\r' || c == '\x0b' || c == '\x0c' || c == '\x1c' || c == '\x1d' ||
    c == '\x1e' || c == '\u0085' || c == '\u2028' || c == '\u2029'

/-- The lines of a document. A text that ends with a terminator has no empty
line after it. -/
def lines : List Char → List Line
  | [] => []
  | '\r' :: '\n' :: rest => ⟨[], ['\r', '\n']⟩ :: lines rest
  | c :: rest =>
      if isLineEnd c then ⟨[], [c]⟩ :: lines rest
      else
        match lines rest with
        | [] => [⟨[c], []⟩]
        | line :: more => line.push c :: more

/-- The lines of a document are the document. -/
theorem flatMap_full_lines (cs : List Char) : (lines cs).flatMap Line.full = cs := by
  fun_induction lines cs with
  | case1 => rfl
  | case2 rest ih => simpa [Line.full] using ih
  | case3 c rest _ _ ih => simpa [Line.full] using ih
  | case4 c rest _ _ none ih => simp_all [Line.full]
  | case5 c rest _ _ line more found ih =>
      rw [found] at ih
      simpa [Line.full, Line.push] using ih

end TernLang.Text
