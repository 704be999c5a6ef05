import TernLang.Sorting.Merge

/-! # Sorting

A stable merge sort driven only by a test `less`. The list is cut into runs from
the front; the runs wait on a stack and are merged with their neighbours. When
two waiting runs are merged depends on where the border between them lies in a
balanced halving of the list: a border of a coarser halving waits longer.

`less` need not be an order: with numbers among which there is a NaN the result
still depends on nothing but the answers of `less`.
-/

namespace TernLang.Sorting

variable {α : Type}

/-- A run on the stack: where it starts in the list, its elements, and the
rank of the border behind it. -/
structure Waiting (α : Type) where
  start : Nat
  items : Array α
  rank : Nat

/-- The runs that wait, the last one first, and the eagerness of merges. -/
structure Stack (α : Type) where
  runs : List (Waiting α)
  eagerness : Nat

/-- The least length of a run in a list of length `n`: `n` is halved, rounding
up, until it is below 64. -/
def leastRun : (fuel n odd : Nat) → Nat
  | 0, n, odd => n + odd
  | fuel + 1, n, odd => if 64 ≤ n then leastRun fuel (n / 2) (max odd (n % 2)) else n + odd

/-- The rank of a border in a list of length `n`: the first halving of the list
that separates the middles of the two runs, which lie at `a / 2` and `b / 2`. -/
def borderRank (n : Nat) : (fuel a b : Nat) → Nat
  | 0, _, _ => 0
  | fuel + 1, a, b =>
      if n ≤ a then borderRank n fuel (2 * (a - n)) (2 * (b - n)) + 1
      else if n ≤ b then 1
      else borderRank n fuel (2 * a) (2 * b) + 1

/-- Merges two neighbouring runs, `below` in front of `above`. -/
def mergeWaiting (less : α → α → Bool) (eagerness : Nat) (below above : Waiting α) :
    Waiting α × Nat :=
  let merged := merge less eagerness below.items above.items
  (⟨below.start, merged.items, below.rank⟩, merged.eagerness)

/-- Merges the last two runs as long as the border between them has a higher
rank than the one that comes next. -/
def collapse (less : α → α → Bool) (rank : Nat) : (fuel : Nat) → Stack α → Stack α
  | 0, stack => stack
  | fuel + 1, stack =>
      match stack.runs with
      | above :: below :: rest =>
          if rank < below.rank then
            let (merged, eagerness) := mergeWaiting less stack.eagerness below above
            collapse less rank fuel ⟨merged :: rest, eagerness⟩
          else stack
      | _ => stack

/-- Gives the last run the rank of the border behind it. -/
def setRank (rank : Nat) (stack : Stack α) : Stack α :=
  match stack.runs with
  | top :: rest => { stack with runs := { top with rank := rank } :: rest }
  | [] => stack

/-- Puts a run on the stack, after merging the runs whose turn it is; `n` is the
length of the list. -/
def push (less : α → α → Bool) (n start : Nat) (run : Array α) (stack : Stack α) : Stack α :=
  let ready :=
    match stack.runs with
    | [] => stack
    | top :: _ =>
        let a := 2 * top.start + top.items.size
        let rank := borderRank n (2 * n + 64) a (a + top.items.size + run.size)
        setRank rank (collapse less rank stack.runs.length stack)
  { ready with runs := ⟨start, run, 0⟩ :: ready.runs }

/-- Cuts a list into runs and puts them on the stack. -/
def stackRuns (less : α → α → Bool) (n least : Nat) :
    (fuel start : Nat) → List α → Stack α → Stack α
  | 0, _, _, stack => stack
  | fuel + 1, start, xs, stack =>
      if xs.isEmpty then stack
      else
        let (run, rest) := nextRun less least xs
        stackRuns less n least fuel (start + run.size) rest (push less n start run stack)

/-- Merges all runs that wait, from the end; if the third run from the end is
shorter than the last, it is merged first. -/
def mergeAll (less : α → α → Bool) : (fuel eagerness : Nat) → List (Waiting α) → Array α
  | _, _, [] => #[]
  | _, _, [run] => run.items
  | 0, _, runs => runs.foldl (fun acc run => run.items ++ acc) #[]
  | fuel + 1, eagerness, above :: below :: rest =>
      match rest with
      | [] => (merge less eagerness below.items above.items).items
      | third :: rest =>
          if third.items.size < above.items.size then
            let (merged, eagerness) := mergeWaiting less eagerness third below
            mergeAll less fuel eagerness (above :: merged :: rest)
          else
            let (merged, eagerness) := mergeWaiting less eagerness below above
            mergeAll less fuel eagerness (merged :: third :: rest)

/-- The elements in ascending order, equal ones in their old order. -/
def sort (less : α → α → Bool) (xs : List α) : List α :=
  let n := xs.length
  let stack := stackRuns less n (leastRun n n 0) n 0 xs ⟨[], longStretch⟩
  (mergeAll less stack.runs.length stack.eagerness stack.runs).toList

end TernLang.Sorting
