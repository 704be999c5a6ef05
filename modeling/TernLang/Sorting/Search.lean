/-! # Searching a border

A test on positions `0, …, n - 1` that holds up to some border and then fails
has its border found by halving. `gallopUp` and `gallopDown` first look near the
lower and near the upper end, at distances that double, so that a border close
to that end is found fast. On a test with several borders they find one of
them.
-/

namespace TernLang.Sorting

/-- A border between `low` and `high`: the test holds right in front of it and
fails right at it, as far as those positions were looked at. -/
def border (before : Nat → Bool) : (fuel low high : Nat) → Nat
  | 0, low, _ => low
  | fuel + 1, low, high =>
      if low < high then
        let middle := low + (high - low) / 2
        if before middle then border before fuel (middle + 1) high
        else border before fuel low middle
      else low

/-- Doubles a distance as long as the test holds at it: the last distance at
which it held, and the next one, which is at most `n`. -/
def stride (holds : Nat → Bool) (n : Nat) : (fuel last distance : Nat) → Nat × Nat
  | 0, last, distance => (last, min distance n)
  | fuel + 1, last, distance =>
      if distance < n && holds distance then stride holds n fuel distance (2 * distance + 1)
      else (last, min distance n)

/-- A border of a test on `n` positions, looked for from the lower end. -/
def gallopUp (before : Nat → Bool) (n : Nat) : Nat :=
  if before 0 then
    let (last, next) := stride before n n 0 1
    border before n (last + 1) next
  else 0

/-- A border of a test on `n` positions, looked for from the upper end. -/
def gallopDown (before : Nat → Bool) (n : Nat) : Nat :=
  if before (n - 1) then n
  else
    let (last, next) := stride (fun distance => !before (n - 1 - distance)) n n 0 1
    border before n (n - next) (n - 1 - last)

end TernLang.Sorting
