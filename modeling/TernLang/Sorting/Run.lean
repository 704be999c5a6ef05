import TernLang.Sorting.Search

/-! # Runs

A run is a stretch of a list that stands in order. The next run of a list is
what already stands in order at its front (or in strictly descending order,
which is turned round), made longer by inserting further elements if it is
short.
-/

namespace TernLang.Sorting

variable {α : Type}

/-- The elements that continue an ascending run after `previous`, and the
rest. -/
def ascending (less : α → α → Bool) : α → List α → List α × List α
  | _, [] => ([], [])
  | previous, x :: rest =>
      if less x previous then ([], x :: rest)
      else
        let (run, remaining) := ascending less x rest
        (x :: run, remaining)

/-- The elements that continue a strictly descending run after `previous`, and
the rest. -/
def descending (less : α → α → Bool) : α → List α → List α × List α
  | _, [] => ([], [])
  | previous, x :: rest =>
      if less x previous then
        let (run, remaining) := descending less x rest
        (x :: run, remaining)
      else ([], x :: rest)

/-- The run at the front of a list, in ascending order, and the rest. -/
def leadingRun (less : α → α → Bool) : List α → List α × List α
  | [] => ([], [])
  | [x] => ([x], [])
  | x :: y :: rest =>
      if less y x then
        let (run, remaining) := descending less y rest
        ((x :: y :: run).reverse, remaining)
      else
        let (run, remaining) := ascending less y rest
        (x :: y :: run, remaining)

/-- The element at a position is not greater than `key`. -/
def notAfter (less : α → α → Bool) (key : Option α) (xs : Array α) (i : Nat) : Bool :=
  match key, xs[i]? with
  | some key, some x => !less key x
  | _, _ => false

/-- The element at a position is less than `key`. -/
def isBefore (less : α → α → Bool) (key : Option α) (xs : Array α) (i : Nat) : Bool :=
  match key, xs[i]? with
  | some key, some x => less x key
  | _, _ => false

/-- Inserts an element into a run, after every element that is not greater. -/
def insert (less : α → α → Bool) (run : Array α) (x : α) : Array α :=
  run.insertIdxIfInBounds (border (notAfter less (some x) run) run.size 0 run.size) x

/-- The next run of a list, of at least `least` elements if there are that many,
and the rest. -/
def nextRun (less : α → α → Bool) (least : Nat) (xs : List α) : Array α × List α :=
  let (run, remaining) := leadingRun less xs
  let missing := least - run.length
  ((remaining.take missing).foldl (insert less) run.toArray, remaining.drop missing)

end TernLang.Sorting
