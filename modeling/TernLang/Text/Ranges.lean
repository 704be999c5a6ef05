/-! # Character classes as ranges

A class of characters beyond ASCII is a list of closed intervals of code
points in ascending order. `Ranges.contains` is the membership test that the
classes of blank, word and unprintable characters share.
-/

namespace TernLang.Text

/-- Closed intervals of code points, in ascending order and apart. -/
abbrev Ranges := List (Nat × Nat)

namespace Ranges

/-- A code point lies in some interval of the table. The scan stops at the
first interval that ends at or after it, which is enough in an ascending
table. -/
def contains : Ranges → Nat → Bool
  | [], _ => false
  | (first, last) :: rest, code =>
      if code ≤ last then first ≤ code else contains rest code

/-- The first code point of the interval that holds `code`. -/
def start? : Ranges → Nat → Option Nat
  | [], _ => none
  | (first, last) :: rest, code =>
      if code ≤ last then (if first ≤ code then some first else none) else start? rest code

end Ranges

end TernLang.Text
