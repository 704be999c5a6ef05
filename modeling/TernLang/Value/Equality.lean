import TernLang.Heap

/-! # Equality of values

Two values are equal if they are the same object, equal constants of one kind,
or lists of equal length with equal elements. Lists may contain themselves: a
pair of lists that is already under comparison counts as equal, so that the
comparison ends.

Comparing nested lists takes one unit of `room` per level; `none` means that the
lists are nested deeper than that.
-/

namespace TernLang

/-- Pairs of lists under comparison. -/
abbrev ListPairs := List (ListRef × ListRef)

/-- Two numbers are equal as doubles, or are one and the same NaN. -/
def equalNumbers (x : Float) (xIdentity : Nat) (y : Float) (yIdentity : Nat) : Bool :=
  x == y || (x.isNaN && y.isNaN && xIdentity == yIdentity)

/-- Equality of values other than two lists. -/
def equalScalars : Value → Value → Bool
  | .null, .null => true
  | .bool a, .bool b => a == b
  | .number x i, .number y j => equalNumbers x i y j
  | .string s, .string t => s == t
  | .list p, .list q => p == q
  | .function f, .function g => f == g
  | .native m, .native n => m == n
  | _, _ => false

/-- Compares pairs in order until one is unequal. -/
def allEqual (compare : ListPairs → Value → Value → Option (Bool × ListPairs)) :
    ListPairs → List (Value × Value) → Option (Bool × ListPairs)
  | seen, [] => some (true, seen)
  | seen, (x, y) :: rest =>
      match compare seen x y with
      | none => none
      | some (false, seen) => some (false, seen)
      | some (true, seen) => allEqual compare seen rest

namespace Heap

/-- Compares two values, given the pairs of lists that count as equal, and
returns those pairs with the ones that were met. -/
def equalWith (heap : Heap) :
    (room : Nat) → ListPairs → Value → Value → Option (Bool × ListPairs)
  | 0, _, _, _ => none
  | room + 1, seen, a, b =>
      match a, b with
      | .list p, .list q =>
          if p = q then some (true, seen)
          else
            let xs := heap.items p
            let ys := heap.items q
            if xs.size ≠ ys.size then some (false, seen)
            else if seen.contains (p, q) then some (true, seen)
            else allEqual (heap.equalWith room) ((p, q) :: seen) (xs.toList.zip ys.toList)
      | a, b => some (equalScalars a b, seen)

def equal (heap : Heap) (room : Nat) (a b : Value) : Option Bool :=
  (heap.equalWith room [] a b).map Prod.fst

end Heap

end TernLang
