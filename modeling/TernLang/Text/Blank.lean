import TernLang.Text.Ranges

/-! # Blank characters

The white space that settings and editor queries ignore: every character of
the Unicode property White_Space, together with the four information
separators U+001C to U+001F. Source text has a smaller notion of white space,
which the lexer states itself.
-/

namespace TernLang.Text

def blanks : Ranges :=
  [(0x9, 0xd), (0x1c, 0x20), (0x85, 0x85), (0xa0, 0xa0), (0x1680, 0x1680), (0x2000, 0x200a),
    (0x2028, 0x2029), (0x202f, 0x202f), (0x205f, 0x205f), (0x3000, 0x3000)]

/-- White space in the sense of Unicode, with the information separators. -/
def isBlank (c : Char) : Bool :=
  blanks.contains c.toNat

def trimRight (cs : List Char) : List Char :=
  (cs.reverse.dropWhile isBlank).reverse

def trim (cs : List Char) : List Char :=
  trimRight (cs.dropWhile isBlank)

end TernLang.Text
