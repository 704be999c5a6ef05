import TernLang.Proofs.Sorting.Merging

/-! # Cutting a list into runs

A run takes elements from the front of the list, at least one (`nextRun_split`), and
**each of its elements is related to the next one** (`nextRun_isChain`): an ascending run
as it stands, a descending one turned round, and an inserted element with both of its
neighbours, since a search looked at these two.
-/

namespace TernLang.Sorting

variable {α : Type} {less : α → α → Bool} {R : α → α → Prop}

/-! ## What stands in order already -/

section Leading

variable (less)

theorem ascending_append (previous : α) (xs : List α) :
    (ascending less previous xs).1 ++ (ascending less previous xs).2 = xs := by
  induction xs generalizing previous with
  | nil => rfl
  | cons x rest ih =>
      unfold ascending
      split
      · rfl
      · exact congrArg (x :: ·) (ih x)

theorem descending_append (previous : α) (xs : List α) :
    (descending less previous xs).1 ++ (descending less previous xs).2 = xs := by
  induction xs generalizing previous with
  | nil => rfl
  | cons x rest ih =>
      unfold descending
      split
      · exact congrArg (x :: ·) (ih x)
      · rfl

/-- The leading run, in its old order or turned round, and the rest are the list. -/
theorem leadingRun_split (xs : List α) :
    ∃ front, front ++ (leadingRun less xs).2 = xs ∧ (leadingRun less xs).1.Perm front := by
  match xs with
  | [] => exact ⟨[], rfl, .refl _⟩
  | [x] => exact ⟨[x], rfl, .refl _⟩
  | x :: y :: rest =>
      rw [leadingRun]
      split
      · refine ⟨x :: y :: (descending less y rest).1, ?_, List.reverse_perm _⟩
        exact congrArg (x :: y :: ·) (descending_append less y rest)
      · refine ⟨x :: y :: (ascending less y rest).1, ?_, .refl _⟩
        exact congrArg (x :: y :: ·) (ascending_append less y rest)

theorem leadingRun_ne_nil {xs : List α} (some : xs ≠ []) : (leadingRun less xs).1 ≠ [] := by
  match xs with
  | [] => exact absurd rfl some
  | [x] => exact List.cons_ne_nil _ _
  | x :: y :: rest =>
      rw [leadingRun]
      split
      · exact List.reverse_ne_nil_iff.mpr (List.cons_ne_nil _ _)
      · exact List.cons_ne_nil _ _

variable {less}

/-- A run that ascends is in order. -/
theorem ascending_isChain {previous : α} {xs : List α}
    (directs : (previous :: xs).Pairwise (Directs less R)) :
    (previous :: (ascending less previous xs).1).IsChain R := by
  induction xs generalizing previous with
  | nil => exact .singleton _
  | cons x rest ih =>
      unfold ascending
      rw [List.pairwise_cons] at directs
      split
      · exact .singleton _
      · rename_i keeps
        rw [Bool.not_eq_true] at keeps
        exact (ih directs.2).cons_cons ((directs.1 x List.mem_cons_self).keeps keeps)

/-- A run that descends is in reverse order. -/
theorem descending_isChain {previous : α} {xs : List α}
    (directs : (previous :: xs).Pairwise (Directs less R)) :
    (previous :: (descending less previous xs).1).IsChain fun x y => R y x := by
  induction xs generalizing previous with
  | nil => exact .singleton _
  | cons x rest ih =>
      unfold descending
      rw [List.pairwise_cons] at directs
      split
      · rename_i swaps
        exact (ih directs.2).cons_cons ((directs.1 x List.mem_cons_self).swaps swaps)
      · exact .singleton _

theorem leadingRun_isChain {xs : List α} (directs : xs.Pairwise (Directs less R)) :
    (leadingRun less xs).1.IsChain R := by
  match xs with
  | [] => exact .nil
  | [x] => exact .singleton _
  | x :: y :: rest =>
      rw [leadingRun]
      rw [List.pairwise_cons] at directs
      have next := directs.1 y List.mem_cons_self
      split
      · rename_i swaps
        rw [List.isChain_reverse]
        exact (descending_isChain directs.2).cons_cons (next.swaps swaps)
      · rename_i keeps
        rw [Bool.not_eq_true] at keeps
        exact (ascending_isChain directs.2).cons_cons (next.keeps keeps)

end Leading

/-! ## Inserting further elements -/

section Insertion

variable {run : Array α} {x : α}

theorem isBorder_insert (less : α → α → Bool) (run : Array α) (x : α) :
    IsBorder (notAfter less (some x) run) run.size
      (border (notAfter less (some x) run) run.size 0 run.size) :=
  isBorder_border (by omega) (by omega) (by omega) (by omega) (by omega)

theorem insertIdx_eq_take_append_drop {xs : List α} {i : Nat} (inside : i ≤ xs.length) :
    xs.insertIdx i x = xs.take i ++ x :: xs.drop i := by
  induction xs generalizing i with
  | nil => rw [Nat.le_zero.mp inside]; rfl
  | cons y rest ih =>
      cases i with
      | zero => rfl
      | succ i => exact congrArg (y :: ·) (ih (Nat.le_of_succ_le_succ inside))

theorem toList_insertIdxIfInBounds {i : Nat} (inside : i ≤ run.size) :
    (run.insertIdxIfInBounds i x).toList = run.toList.take i ++ x :: run.toList.drop i := by
  rw [Array.insertIdxIfInBounds, dif_pos inside, Array.toList_insertIdx]
  exact insertIdx_eq_take_append_drop inside

theorem insert_perm (less : α → α → Bool) (run : Array α) (x : α) :
    (insert less run x).toList.Perm (run.toList ++ [x]) := by
  rw [insert, toList_insertIdxIfInBounds (isBorder_insert less run x).le]
  generalize border _ _ _ _ = place
  have middle : (run.toList.take place ++ x :: run.toList.drop place).Perm
      (x :: (run.toList.take place ++ run.toList.drop place)) := List.perm_middle
  rw [List.take_append_drop] at middle
  exact middle.trans (List.perm_append_singleton x _).symm

/-- Inserting behind everything not after it keeps a run in order. -/
theorem insert_isChain (chained : run.toList.IsChain R)
    (directs : ∀ y ∈ run.toList, Directs less R y x) : (insert less run x).toList.IsChain R := by
  have places := isBorder_insert less run x
  rw [insert, toList_insertIdxIfInBounds places.le]
  generalize border _ _ _ _ = place at places ⊢
  have le := places.le
  rw [List.isChain_append]
  refine ⟨chained.take place, (chained.drop place).cons ?_, ?_⟩
  · intro y next
    rw [List.head?_drop, Array.getElem?_toList] at next
    have answer := places.fails (Array.getElem?_eq_some_iff.mp next).1
    simp only [notAfter, Option.mem_def.mp next] at answer
    exact (directs y (mem_of_mem_getElem? next)).swaps (by simpa using answer)
  · intro y last z same
    obtain rfl : x = z := Option.some_inj.mp same
    rcases Nat.eq_zero_or_pos place with rfl | some
    · exact absurd last (by simp)
    have answer := places.holds some
    have ends := getLast?_append_take some le []
    rw [List.nil_append] at ends
    rw [ends] at last
    simp only [notAfter, Option.mem_def.mp last] at answer
    exact (directs y (mem_of_mem_getElem? last)).keeps (by simpa using answer)

theorem foldl_insert_perm (less : α → α → Bool) (xs : List α) (run : Array α) :
    (xs.foldl (insert less) run).toList.Perm (run.toList ++ xs) := by
  induction xs generalizing run with
  | nil => simp
  | cons x rest ih =>
      have step := (insert_perm less run x).append_right rest
      rw [List.append_assoc] at step
      exact (ih _).trans step

theorem foldl_insert_isChain {xs : List α} (chained : run.toList.IsChain R)
    (across : Across (Directs less R) run.toList xs) (directs : xs.Pairwise (Directs less R)) :
    (xs.foldl (insert less) run).toList.IsChain R := by
  induction xs generalizing run with
  | nil => exact chained
  | cons x rest ih =>
      rw [List.pairwise_cons] at directs
      refine ih (insert_isChain chained fun y mem => across y mem x List.mem_cons_self) ?_ directs.2
      intro y mem z mem'
      rcases List.mem_append.mp ((insert_perm less run x).mem_iff.mp mem) with old | new
      · exact across y old z (List.mem_cons_of_mem x mem')
      · exact List.mem_singleton.mp new ▸ directs.1 z mem'

end Insertion

/-! ## The next run -/

variable (less)

/-- **A run takes elements from the front.** -/
theorem nextRun_split (least : Nat) (xs : List α) :
    ∃ front, front ++ (nextRun less least xs).2 = xs ∧
      (nextRun less least xs).1.toList.Perm front := by
  obtain ⟨front, split, perm⟩ := leadingRun_split less xs
  let missing := least - (leadingRun less xs).1.length
  refine ⟨front ++ (leadingRun less xs).2.take missing, ?_, ?_⟩
  · rw [List.append_assoc]
    exact (congrArg (front ++ ·) (List.take_append_drop missing _)).trans split
  · exact (foldl_insert_perm less _ _).trans (perm.append_right _)

theorem nextRun_some (least : Nat) {xs : List α} (some : xs ≠ []) :
    0 < (nextRun less least xs).1.size := by
  have size := (foldl_insert_perm less ((leadingRun less xs).2.take
    (least - (leadingRun less xs).1.length)) (leadingRun less xs).1.toArray).length_eq
  rw [Array.length_toList, List.length_append] at size
  have leading := List.length_pos_iff.mpr (leadingRun_ne_nil less some)
  exact size ▸ Nat.add_pos_left leading _

variable {less}

/-- **Each element of a run is related to the next one.** -/
theorem nextRun_isChain (least : Nat) {xs : List α} (directs : xs.Pairwise (Directs less R)) :
    (nextRun less least xs).1.toList.IsChain R := by
  obtain ⟨front, split, perm⟩ := leadingRun_split less xs
  have chained := leadingRun_isChain directs
  rw [← split, List.pairwise_append] at directs
  obtain ⟨-, rest, across⟩ := directs
  refine foldl_insert_isChain chained ?_ (rest.take)
  intro y mem z mem'
  exact across y (perm.mem_iff.mp mem) z (List.mem_of_mem_take mem')

end TernLang.Sorting
