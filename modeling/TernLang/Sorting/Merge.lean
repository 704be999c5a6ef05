import TernLang.Sorting.Run

/-! # Merging two runs

Two adjacent runs become one; of equal elements those of the first run come
first. Elements are taken one by one until one run has won several times in a
row (`eagerness` times), then in stretches whose ends are searched for, as long
as the stretches are long. `mergeUp` builds the result from its start and
`mergeDown` from its end; which one is used depends on which run is shorter.
-/

namespace TernLang.Sorting

variable {α : Type}

/-- A stretch of at least this length counts as long. -/
def longStretch : Nat := 7

/-- How elements are taken: one by one, with the number of times in a row that
the first or the second run has won, or in stretches. -/
inductive Pace where
  | single (firstWins secondWins : Nat)
  | stretches
  deriving DecidableEq, Repr

/-- A merged run, and how eagerly the next merge takes stretches. -/
structure Merged (α : Type) where
  items : Array α
  eagerness : Nat

/-- The pace after two stretches, and the new eagerness: it falls as long as
the stretches are long and rises when they no longer are. The last stretches of
a merge do not change it. -/
def nextPace (first second eagerness : Nat) (isLast : Bool) : Pace × Nat :=
  if isLast then (.stretches, eagerness)
  else if longStretch ≤ first || longStretch ≤ second then
    (.stretches, if 1 < eagerness then eagerness - 1 else eagerness)
  else (.single 0 0, eagerness + 1)

/-- Merges what is left of `xs` from position `i` and of `ys` from position `j`
behind `out`. The last element of `xs` is known to come last. -/
def mergeUp (less : α → α → Bool) (xs ys : Array α) :
    (fuel i j eagerness : Nat) → Pace → Array α → Merged α
  | 0, i, j, eagerness, _, out => ⟨out ++ xs.extract i ++ ys.extract j, eagerness⟩
  | fuel + 1, i, j, eagerness, pace, out =>
      let left := xs.size - i
      let right := ys.size - j
      if right = 0 || left = 0 then ⟨out ++ xs.extract i ++ ys.extract j, eagerness⟩
      else if left = 1 then ⟨out ++ ys.extract j ++ xs.extract i, eagerness⟩
      else
        match pace with
        | .single firstWins secondWins =>
            if isBefore less xs[i]? ys j then
              let pace := if eagerness ≤ secondWins + 1 then .stretches
                else .single 0 (secondWins + 1)
              mergeUp less xs ys fuel i (j + 1) eagerness pace (out ++ ys.extract j (j + 1))
            else
              let pace := if eagerness ≤ firstWins + 1 then .stretches
                else .single (firstWins + 1) 0
              mergeUp less xs ys fuel (i + 1) j eagerness pace (out ++ xs.extract i (i + 1))
        | .stretches =>
            let first := gallopUp (fun k => notAfter less ys[j]? xs (i + k)) left
            let i' := i + first
            let out := out ++ xs.extract i i'
            if 0 < first && xs.size - i' ≤ 1 then
              if xs.size - i' = 1 then ⟨out ++ ys.extract j ++ xs.extract i', eagerness⟩
              else ⟨out ++ ys.extract j, eagerness⟩
            else
              let out := out ++ ys.extract j (j + 1)
              let second := gallopUp (fun k => isBefore less xs[i']? ys (j + 1 + k)) (right - 1)
              let j' := j + 1 + second
              let out := out ++ ys.extract (j + 1) j'
              if ys.size - j' = 0 then ⟨out ++ xs.extract i', eagerness⟩
              else
                let (pace, eagerness) := nextPace first second eagerness (xs.size - (i' + 1) == 1)
                mergeUp less xs ys fuel (i' + 1) j' eagerness pace (out ++ xs.extract i' (i' + 1))

/-- Merges the first `m` elements of `xs` and the first `n` of `ys` in front of
`out`. The first element of `ys` is known to come first. -/
def mergeDown (less : α → α → Bool) (xs ys : Array α) :
    (fuel m n eagerness : Nat) → Pace → List α → Merged α
  | 0, m, n, eagerness, _, out =>
      ⟨((xs.extract 0 m).toList ++ (ys.extract 0 n).toList ++ out).toArray, eagerness⟩
  | fuel + 1, m, n, eagerness, pace, out =>
      if m = 0 || n = 0 then
        ⟨((xs.extract 0 m).toList ++ (ys.extract 0 n).toList ++ out).toArray, eagerness⟩
      else if n = 1 then
        ⟨((ys.extract 0 n).toList ++ (xs.extract 0 m).toList ++ out).toArray, eagerness⟩
      else
        match pace with
        | .single firstWins secondWins =>
            if isBefore less xs[m - 1]? ys (n - 1) then
              let pace := if eagerness ≤ firstWins + 1 then .stretches
                else .single (firstWins + 1) 0
              mergeDown less xs ys fuel (m - 1) n eagerness pace
                ((xs.extract (m - 1) m).toList ++ out)
            else
              let pace := if eagerness ≤ secondWins + 1 then .stretches
                else .single 0 (secondWins + 1)
              mergeDown less xs ys fuel m (n - 1) eagerness pace
                ((ys.extract (n - 1) n).toList ++ out)
        | .stretches =>
            let m' := gallopDown (notAfter less ys[n - 1]? xs) m
            let out := (xs.extract m' m).toList ++ out
            if m' = 0 then ⟨((ys.extract 0 n).toList ++ out).toArray, eagerness⟩
            else
              let out := (ys.extract (n - 1) n).toList ++ out
              if n - 1 = 1 then
                ⟨((ys.extract 0 1).toList ++ (xs.extract 0 m').toList ++ out).toArray, eagerness⟩
              else
                let n' := gallopDown (isBefore less xs[m' - 1]? ys) (n - 1)
                let out := (ys.extract n' (n - 1)).toList ++ out
                if n' ≤ 1 then
                  ⟨((ys.extract 0 n').toList ++ (xs.extract 0 m').toList ++ out).toArray, eagerness⟩
                else
                  let (pace, eagerness) := nextPace (m - m') (n - 1 - n') eagerness (m' - 1 == 0)
                  mergeDown less xs ys fuel (m' - 1) n' eagerness pace
                    ((xs.extract (m' - 1) m').toList ++ out)

/-- Merges two adjacent runs. What stands at the front of the first run and at
the end of the second and is in place already stays there. -/
def merge (less : α → α → Bool) (eagerness : Nat) (xs ys : Array α) : Merged α :=
  let start := gallopUp (notAfter less ys[0]? xs) xs.size
  if start = xs.size then ⟨xs ++ ys, eagerness⟩
  else
    let stop := gallopDown (isBefore less xs.back? ys) ys.size
    if stop = 0 then ⟨xs ++ ys, eagerness⟩
    else
      let first := xs.extract start
      let second := ys.extract 0 stop
      let fuel := xs.size + ys.size
      let merged :=
        if first.size ≤ second.size then
          mergeUp less first second fuel 0 1 eagerness (.single 0 0) (second.extract 0 1)
        else
          mergeDown less first second fuel (first.size - 1) second.size eagerness (.single 0 0)
            (first.extract (first.size - 1)).toList
      ⟨xs.extract 0 start ++ merged.items ++ ys.extract stop, merged.eagerness⟩

end TernLang.Sorting
