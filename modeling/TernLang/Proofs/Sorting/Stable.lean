import Mathlib.Data.List.FinRange
import TernLang.Proofs.Sorting.Natural
import TernLang.Proofs.Sorting.Waiting

/-! # Sorting twice, and equal elements

If no two elements are each less than the other, **sorting a sorted list changes
nothing** (`sort_sort`): each element of it is not less than the one in front of it, so
the whole list is one run. That needs no order, and it does not follow from one.

A sorted list is given by the positions at which its elements stood before (`positions`).
If the test is an order in which elements may be equal, **elements come in that order,
and equal ones in the order of their positions** (`positions_pairwise`).
-/

namespace TernLang.Sorting

variable {α : Type} {less : α → α → Bool}

/-! ## Sorting twice -/

theorem ascending_of_isChain {previous : α} {xs : List α}
    (chained : (previous :: xs).IsChain fun x y => less y x = false) :
    ascending less previous xs = (xs, []) := by
  induction xs generalizing previous with
  | nil => rfl
  | cons x rest ih =>
      rw [List.isChain_cons_cons] at chained
      rw [ascending, chained.1, ih chained.2]
      rfl

/-- A list in order is one run. -/
theorem leadingRun_of_isChain {xs : List α}
    (chained : xs.IsChain fun x y => less y x = false) : leadingRun less xs = (xs, []) := by
  match xs with
  | [] => rfl
  | [x] => rfl
  | x :: y :: rest =>
      rw [List.isChain_cons_cons] at chained
      rw [leadingRun, chained.1, ascending_of_isChain chained.2]
      rfl

/-- **A list in which no element is less than the one in front of it stays as it is.** -/
theorem sort_of_isChain {xs : List α} (chained : xs.IsChain fun x y => less y x = false) :
    sort less xs = xs := by
  cases xs with
  | nil => rfl
  | cons x rest =>
      have run : ∀ least, nextRun less least (x :: rest) = ((x :: rest).toArray, []) := by
        intro least
        rw [nextRun, leadingRun_of_isChain chained]
        simp
      have stack : ∀ least, stackRuns less (rest.length + 1) least (rest.length + 1) 0 (x :: rest)
          ⟨[], longStretch⟩ = ⟨[⟨0, (x :: rest).toArray, 0⟩], longStretch⟩ := by
        intro least
        rw [stackRuns, run]
        cases rest.length <;> rfl
      rw [sort]
      dsimp only [List.length_cons]
      rw [stack]
      rfl

section Asymmetric

variable (asymm : ∀ x y, less x y = true → less y x = false)

include asymm

/-- No element of a sorted list is less than the one in front of it. -/
theorem sort_isChain_of_asymm (xs : List α) :
    (sort less xs).IsChain fun x y => less y x = false :=
  sort_isChain (List.pairwise_of_forall fun x y => ⟨id, asymm y x⟩)

/-- **Sorting a sorted list changes nothing.** -/
theorem sort_sort (xs : List α) : sort less (sort less xs) = sort less xs :=
  sort_of_isChain (sort_isChain_of_asymm asymm xs)

end Asymmetric

/-! ## Positions -/

/-- The positions of the elements of the sorted list. -/
def positions (less : α → α → Bool) (xs : List α) : List (Fin xs.length) :=
  sort (testOn less xs.get) (List.finRange xs.length)

/-- Sorting a list is sorting its positions. -/
theorem sort_eq_map_positions (less : α → α → Bool) (xs : List α) :
    sort less xs = (positions less xs).map xs.get := by
  rw [positions, ← sort_map, ← List.ofFn_eq_map, List.ofFn_get]

theorem positions_perm (less : α → α → Bool) (xs : List α) :
    (positions less xs).Perm (List.finRange xs.length) :=
  sort_perm _ _

/-- The element at the first position is not greater, and if it is not less, the first
position is in front. -/
structure InFront (less : α → α → Bool) (xs : List α) (i j : Fin xs.length) : Prop where
  notAfter : less (xs.get j) (xs.get i) = false
  stable : less (xs.get i) (xs.get j) = false → i < j

section Orders

variable {xs : List α} (asymm : ∀ x y, less x y = true → less y x = false)
  (notAfter_trans : ∀ i j k : Fin xs.length, less (xs.get j) (xs.get i) = false →
    less (xs.get k) (xs.get j) = false → less (xs.get k) (xs.get i) = false)

include notAfter_trans in
theorem InFront.trans {i j k : Fin xs.length} (first : InFront less xs i j)
    (second : InFront less xs j k) : InFront less xs i k := by
  refine ⟨notAfter_trans i j k first.notAfter second.notAfter, fun notBefore => ?_⟩
  have equal : less (xs.get i) (xs.get j) = false :=
    notAfter_trans j k i second.notAfter notBefore
  have equal' : less (xs.get j) (xs.get k) = false :=
    notAfter_trans k i j notBefore first.notAfter
  exact (first.stable equal).trans (second.stable equal')

include asymm notAfter_trans in
/-- **Elements come in order, and equal ones in the order of their positions.** -/
theorem positions_pairwise : (positions less xs).Pairwise (InFront less xs) := by
  have : IsTrans (Fin xs.length) (InFront less xs) :=
    ⟨fun _ _ _ first second => first.trans notAfter_trans second⟩
  rw [← List.isChain_iff_pairwise]
  refine sort_isChain ((List.pairwise_lt_finRange xs.length).imp fun {i j} inFront => ⟨?_, ?_⟩)
  · exact fun keeps => ⟨keeps, fun _ => inFront⟩
  · intro swaps
    refine ⟨asymm _ _ swaps, fun equal => ?_⟩
    exact absurd (swaps.symm.trans equal) Bool.noConfusion

end Orders

end TernLang.Sorting
