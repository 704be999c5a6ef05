import TernLang.Proofs.Sorting.Runs
import TernLang.Sorting

/-! # What a sort leaves

Whatever the test answers, the sorted list is a permutation of the list (`sort_perm`).
**Each of its elements is related to the next one, by any relation that the answers of
the test imply between an element of the list and a later one** (`sort_isChain`). Nothing
is asked of the test itself: when runs meet, all elements of the one come from in front
of all elements of the other, and that is kept up to the last merge (`Stacked`).
-/

namespace TernLang.Sorting

variable {α : Type} {less : α → α → Bool} {R : α → α → Prop}

/-- The elements of the runs that wait, those of the last run at the end. -/
def contents : List (Waiting α) → List α
  | [] => []
  | run :: rest => contents rest ++ run.items.toList

/-- The runs that wait are in relation, and the elements of each run come from in front
of those of a later run and of those that are still ahead. -/
structure Stacked (less : α → α → Bool) (R : α → α → Prop) (runs : List (Waiting α))
    (ahead : List α) : Prop where
  chained : ∀ run ∈ runs, run.items.toList.IsChain R
  ordered : runs.Pairwise fun above below =>
    Across (Directs less R) below.items.toList above.items.toList
  before : ∀ run ∈ runs, Across (Directs less R) run.items.toList ahead
  ahead : ahead.Pairwise (Directs less R)

section Stacks

variable {run above below : Waiting α} {runs rest : List (Waiting α)} {ahead : List α}

theorem stacked_cons :
    Stacked less R (run :: rest) ahead ↔
      run.items.toList.IsChain R ∧
        (∀ below ∈ rest, Across (Directs less R) below.items.toList run.items.toList) ∧
        Across (Directs less R) run.items.toList ahead ∧ Stacked less R rest ahead := by
  constructor
  · rintro ⟨chained, ordered, before, ahead⟩
    rw [List.forall_mem_cons] at chained before
    rw [List.pairwise_cons] at ordered
    exact ⟨chained.1, ordered.1, before.1, chained.2, ordered.2, before.2, ahead⟩
  · rintro ⟨chained, ordered, before, rest⟩
    exact ⟨List.forall_mem_cons.mpr ⟨chained, rest.chained⟩,
      List.pairwise_cons.mpr ⟨ordered, rest.ordered⟩,
      List.forall_mem_cons.mpr ⟨before, rest.before⟩, rest.ahead⟩

theorem mem_merge {eagerness : Nat} {xs ys : Array α} {x : α} :
    x ∈ (merge less eagerness xs ys).items.toList ↔ x ∈ xs.toList ∨ x ∈ ys.toList :=
  (merge_perm less eagerness xs ys).mem_iff.trans List.mem_append

/-- **A merge of the last two runs** leaves such a stack. -/
theorem Stacked.merge (stacked : Stacked less R (above :: below :: rest) ahead)
    (eagerness : Nat) :
    Stacked less R ((mergeWaiting less eagerness below above).1 :: rest) ahead := by
  obtain ⟨chained, ordered, before, stacked⟩ := stacked_cons.mp stacked
  obtain ⟨chained', ordered', before', stacked⟩ := stacked_cons.mp stacked
  rw [List.forall_mem_cons] at ordered
  refine stacked_cons.mpr ⟨merge_isChain ordered.1 chained' chained, ?_, ?_, stacked⟩
  · intro lower mem x mem' y mem''
    rcases mem_merge.mp mem'' with mem'' | mem''
    · exact ordered' lower mem x mem' y mem''
    · exact ordered.2 lower mem x mem' y mem''
  · intro x mem y mem'
    rcases mem_merge.mp mem with mem | mem
    · exact before' x mem y mem'
    · exact before x mem y mem'

/-- **A merge below the last run** leaves such a stack. -/
theorem Stacked.merge_below {top : Waiting α}
    (stacked : Stacked less R (top :: above :: below :: rest) ahead) (eagerness : Nat) :
    Stacked less R (top :: (mergeWaiting less eagerness below above).1 :: rest) ahead := by
  obtain ⟨chained, ordered, before, stacked⟩ := stacked_cons.mp stacked
  rw [List.forall_mem_cons, List.forall_mem_cons] at ordered
  refine stacked_cons.mpr ⟨chained, List.forall_mem_cons.mpr ⟨?_, ordered.2.2⟩, before,
    stacked.merge eagerness⟩
  intro x mem y mem'
  rcases mem_merge.mp mem with mem | mem
  · exact ordered.2.1 x mem y mem'
  · exact ordered.1 x mem y mem'

theorem contents_merge (less : α → α → Bool) (eagerness : Nat) (above below : Waiting α)
    (rest : List (Waiting α)) :
    (contents ((mergeWaiting less eagerness below above).1 :: rest)).Perm
      (contents (above :: below :: rest)) := by
  show (contents rest ++ _).Perm (contents rest ++ _ ++ _)
  rw [List.append_assoc]
  exact (merge_perm less eagerness below.items above.items).append_left _

end Stacks

/-! ## Merging while runs are put on the stack -/

section Pushes

variable {stack : Stack α} {ahead : List α}

/-- Merging waiting runs leaves the stack in order. -/
theorem Stacked.collapse (rank fuel : Nat) (stacked : Stacked less R stack.runs ahead) :
    Stacked less R (collapse less rank fuel stack).runs ahead := by
  induction fuel generalizing stack with
  | zero => exact stacked
  | succ fuel ih =>
      unfold Sorting.collapse
      split
      · rename_i above below rest runs
        rw [runs] at stacked
        split
        · exact ih (stacked.merge _)
        · exact runs ▸ stacked
      · exact stacked

theorem contents_collapse (less : α → α → Bool) (rank fuel : Nat) (stack : Stack α) :
    (contents (Sorting.collapse less rank fuel stack).runs).Perm (contents stack.runs) := by
  induction fuel generalizing stack with
  | zero => exact .refl _
  | succ fuel ih =>
      unfold Sorting.collapse
      split
      · rename_i above below rest runs
        split
        · rw [runs]
          exact (ih _).trans (contents_merge less _ above below rest)
        · exact .refl _
      · exact .refl _

theorem Stacked.setRank (rank : Nat) (stacked : Stacked less R stack.runs ahead) :
    Stacked less R (setRank rank stack).runs ahead := by
  unfold Sorting.setRank
  split
  · rename_i top rest runs
    rw [runs] at stacked
    obtain ⟨chained, ordered, before, stacked⟩ := stacked_cons.mp stacked
    exact stacked_cons.mpr ⟨chained, ordered, before, stacked⟩
  · exact stacked

theorem contents_setRank (rank : Nat) (stack : Stack α) :
    contents (Sorting.setRank rank stack).runs = contents stack.runs := by
  unfold Sorting.setRank
  split
  · rename_i top rest runs
    rw [runs]
    rfl
  · rfl

/-- A run that stood at the front of what was ahead waits behind the others. -/
theorem Stacked.cons {run : Waiting α} {runs : List (Waiting α)} {front rest : List α}
    (stacked : Stacked less R runs (front ++ rest)) (perm : run.items.toList.Perm front)
    (chained : run.items.toList.IsChain R) : Stacked less R (run :: runs) rest := by
  obtain ⟨chained', ordered, before, ahead⟩ := stacked
  rw [List.pairwise_append] at ahead
  refine stacked_cons.mpr ⟨chained, ?_, ?_, chained', ordered, ?_, ahead.2.1⟩
  · exact fun below mem => (before below mem).mono (fun _ mem => mem)
      fun _ mem => List.mem_append_left _ (perm.mem_iff.mp mem)
  · exact fun x mem y mem' => ahead.2.2 x (perm.mem_iff.mp mem) y mem'
  · exact fun below mem => (before below mem).mono (fun _ mem => mem)
      fun _ mem => List.mem_append_right _ mem

theorem Stacked.push {n start : Nat} {run : Array α} {front rest : List α}
    (stacked : Stacked less R stack.runs (front ++ rest)) (perm : run.toList.Perm front)
    (chained : run.toList.IsChain R) :
    Stacked less R (push less n start run stack).runs rest := by
  obtain ⟨runs, eagerness⟩ := stack
  cases runs with
  | nil => exact stacked.cons perm chained
  | cons top rest => exact ((stacked.collapse _ _).setRank _).cons perm chained

theorem contents_push (less : α → α → Bool) (n start : Nat) (run : Array α) (stack : Stack α) :
    (contents (Sorting.push less n start run stack).runs).Perm
      (contents stack.runs ++ run.toList) := by
  obtain ⟨runs, eagerness⟩ := stack
  refine List.Perm.append_right _ ?_
  cases runs with
  | nil => exact .refl _
  | cons top rest =>
      dsimp only
      rw [contents_setRank]
      exact contents_collapse less _ _ _

end Pushes

/-! ## All runs -/

section Runs

variable {n least : Nat}

theorem Stacked.stackRuns {fuel start : Nat} {xs : List α} {stack : Stack α}
    (stacked : Stacked less R stack.runs xs) :
    Stacked less R (stackRuns less n least fuel start xs stack).runs [] := by
  have done : Stacked less R stack.runs [] :=
    ⟨stacked.chained, stacked.ordered, fun _ _ _ _ _ mem => absurd mem List.not_mem_nil, .nil⟩
  induction fuel generalizing start xs stack with
  | zero => exact done
  | succ fuel ih =>
      unfold Sorting.stackRuns
      split
      · exact done
      · obtain ⟨front, split, perm⟩ := nextRun_split less least xs
        have chained := nextRun_isChain least stacked.ahead
        rw [← split] at stacked
        have pushed : Stacked less R (Sorting.push less n start _ stack).runs _ :=
          stacked.push perm chained
        exact ih pushed ⟨pushed.chained, pushed.ordered,
          fun _ _ _ _ _ mem => absurd mem List.not_mem_nil, .nil⟩

/-- No element is lost or made up while the runs are stacked. -/
theorem contents_stackRuns {fuel start : Nat} {xs : List α} {stack : Stack α}
    (enough : xs.length ≤ fuel) :
    (contents (stackRuns less n least fuel start xs stack).runs).Perm
      (contents stack.runs ++ xs) := by
  induction fuel generalizing start xs stack with
  | zero =>
      obtain rfl := List.eq_nil_of_length_eq_zero (Nat.le_zero.mp enough)
      rw [List.append_nil]
      exact .refl _
  | succ fuel ih =>
      unfold stackRuns
      split
      · rename_i none
        rw [List.isEmpty_iff.mp none, List.append_nil]
      · rename_i some
        obtain ⟨front, split, perm⟩ := nextRun_split less least xs
        have size := nextRun_some less least (mt List.isEmpty_iff.mpr some)
        have shorter : (nextRun less least xs).2.length ≤ fuel := by
          have length := congrArg List.length split
          rw [List.length_append, ← perm.length_eq, Array.length_toList] at length
          omega
        have pushed := (contents_push less n start (nextRun less least xs).1 stack).append_right
          (nextRun less least xs).2
        rw [List.append_assoc] at pushed
        have parts : ((nextRun less least xs).1.toList ++ (nextRun less least xs).2).Perm xs :=
          (perm.append_right _).trans (.of_eq split)
        exact ((ih shorter).trans pushed).trans (parts.append_left _)

/-- **The last merges keep the runs in relation.** -/
theorem mergeAll_isChain {fuel eagerness : Nat} {runs : List (Waiting α)}
    (enough : runs.length ≤ fuel) (stacked : Stacked less R runs []) :
    (mergeAll less fuel eagerness runs).toList.IsChain R := by
  induction fuel generalizing eagerness runs with
  | zero =>
      obtain rfl := List.eq_nil_of_length_eq_zero (Nat.le_zero.mp enough)
      exact .nil
  | succ fuel ih =>
      match runs with
      | [] => exact .nil
      | [run] => exact stacked.chained run List.mem_cons_self
      | [above, below] => exact (stacked.merge eagerness).chained _ List.mem_cons_self
      | above :: below :: third :: rest =>
          simp only [List.length_cons] at enough
          rw [mergeAll]
          split
          · exact ih (by simp only [List.length_cons]; omega) (stacked.merge_below _)
          · exact ih (by simp only [List.length_cons]; omega) (stacked.merge _)

/-- The last merges leave every element in. -/
theorem mergeAll_perm {fuel eagerness : Nat} {runs : List (Waiting α)}
    (enough : runs.length ≤ fuel) :
    (mergeAll less fuel eagerness runs).toList.Perm (contents runs) := by
  induction fuel generalizing eagerness runs with
  | zero =>
      obtain rfl := List.eq_nil_of_length_eq_zero (Nat.le_zero.mp enough)
      exact .refl _
  | succ fuel ih =>
      match runs with
      | [] => exact .refl _
      | [run] => exact .refl _
      | [above, below] => exact contents_merge less eagerness above below []
      | above :: below :: third :: rest =>
          simp only [List.length_cons] at enough
          rw [mergeAll]
          split
          · refine (ih (by simp only [List.length_cons]; omega)).trans ?_
            exact (contents_merge less eagerness below third rest).append_right _
          · refine (ih (by simp only [List.length_cons]; omega)).trans ?_
            exact contents_merge less eagerness above below (third :: rest)

end Runs

/-! ## Sorted lists -/

/-- **A sorted list is a permutation of the list**, whatever the test answers. -/
theorem sort_perm (less : α → α → Bool) (xs : List α) : (sort less xs).Perm xs :=
  (mergeAll_perm (Nat.le_refl _)).trans (contents_stackRuns (Nat.le_refl _))

/-- **Each element of a sorted list is related to the next one.** -/
theorem sort_isChain {xs : List α} (directs : xs.Pairwise (Directs less R)) :
    (sort less xs).IsChain R := by
  have empty : Stacked less R (⟨[], longStretch⟩ : Stack α).runs xs :=
    ⟨fun _ mem => absurd mem List.not_mem_nil, .nil, fun _ mem => absurd mem List.not_mem_nil,
      directs⟩
  exact mergeAll_isChain (Nat.le_refl _) empty.stackRuns

end TernLang.Sorting
