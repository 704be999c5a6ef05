import TernLang.Sorting.Search

/-! # What a search finds

Halving and galloping find a border of a test, **also if the test has several borders**
or none of the kind that an order would give: right in front of the place that is found
the test holds, and right at it the test fails, where there are such positions
(`IsBorder`). Only answers that were asked for are used.
-/

namespace TernLang.Sorting

/-- Among `n` positions, the test holds right in front of the place and fails right at
it. -/
structure IsBorder (before : Nat → Bool) (n place : Nat) : Prop where
  le : place ≤ n
  holds : 0 < place → before (place - 1) = true
  fails : place < n → before place = false

variable {before : Nat → Bool} {n : Nat}

/-- The binary search ends at a border of the test. -/
theorem isBorder_border {fuel low high : Nat} (enough : high - low ≤ fuel) (ordered : low ≤ high)
    (inside : high ≤ n) (holds : 0 < low → before (low - 1) = true)
    (fails : high < n → before high = false) : IsBorder before n (border before fuel low high) := by
  induction fuel generalizing low high with
  | zero =>
      have same : low = high := by omega
      exact ⟨by unfold border; omega, holds, fun within => same ▸ fails (same ▸ within)⟩
  | succ fuel ih =>
      unfold border
      by_cases open' : low < high
      · rw [if_pos open']
        dsimp only
        by_cases middle : before (low + (high - low) / 2) = true
        · rw [if_pos middle]
          exact ih (by omega) (by omega) inside (fun _ => middle) fails
        · rw [if_neg middle]
          exact ih (by omega) (by omega) (by omega) holds
            (fun _ => Bool.eq_false_iff.mpr middle)
      · rw [if_neg open']
        have same : low = high := by omega
        exact ⟨same ▸ inside, holds, fun within => same ▸ fails (same ▸ within)⟩

/-- The test holds at the last distance, and it fails at the next one unless that is out
of range. -/
structure IsStride (holds : Nat → Bool) (n last next : Nat) : Prop where
  lt : last < next
  le : next ≤ n
  held : holds last = true
  fails : next < n → holds next = false

/-- The gallop ends with a border between its last two distances. -/
theorem isStride_stride {holds : Nat → Bool} {fuel last distance : Nat}
    (enough : n ≤ fuel + distance) (lt : last < distance) (inside : last < n)
    (held : holds last = true) :
    IsStride holds n (stride holds n fuel last distance).1
      (stride holds n fuel last distance).2 := by
  induction fuel generalizing last distance with
  | zero => exact ⟨by unfold stride; omega, Nat.min_le_right _ _, held, by unfold stride; omega⟩
  | succ fuel ih =>
      unfold stride
      by_cases again : (distance < n && holds distance) = true
      · rw [if_pos again]
        rw [Bool.and_eq_true, decide_eq_true_eq] at again
        exact ih (by omega) (by omega) again.1 again.2
      · rw [if_neg again]
        refine ⟨by dsimp only; omega, Nat.min_le_right _ _, held, fun within => ?_⟩
        dsimp only at within ⊢
        have here : min distance n = distance := by omega
        rw [here] at within ⊢
        rw [Bool.and_eq_true, decide_eq_true_eq] at again
        exact Bool.eq_false_iff.mpr fun holding => again ⟨within, holding⟩

/-- **Galloping from the lower end finds a border.** -/
theorem isBorder_gallopUp (inside : before 0 = true → 0 < n) :
    IsBorder before n (gallopUp before n) := by
  unfold gallopUp
  by_cases first : before 0 = true
  · rw [if_pos first]
    have strides : IsStride before n (stride before n n 0 1).1 (stride before n n 0 1).2 :=
      isStride_stride (by omega) Nat.zero_lt_one (inside first) first
    have lt := strides.lt
    have le := strides.le
    exact isBorder_border (by omega) (by omega) strides.le (fun _ => strides.held) strides.fails
  · rw [if_neg first]
    exact ⟨Nat.zero_le n, nofun, fun _ => Bool.eq_false_iff.mpr first⟩

/-- **Galloping from the upper end finds a border.** -/
theorem isBorder_gallopDown (before : Nat → Bool) (n : Nat) :
    IsBorder before n (gallopDown before n) := by
  unfold gallopDown
  by_cases last : before (n - 1) = true
  · rw [if_pos last]
    exact ⟨Nat.le_refl n, fun _ => last, fun within => absurd within (Nat.lt_irrefl n)⟩
  · rw [if_neg last]
    rcases Nat.eq_zero_or_pos n with rfl | some
    · exact isBorder_border (by simp) (by simp) (by simp) (by simp)
        (by simp)
    · -- distances are counted from the upper end, where the test fails
      have strides : IsStride (fun distance => !before (n - 1 - distance)) n
          (stride _ n n 0 1).1 (stride _ n n 0 1).2 :=
        isStride_stride (by omega) Nat.zero_lt_one some (by simpa using last)
      have lt := strides.lt
      have le := strides.le
      refine isBorder_border (by omega) (by omega) (by omega) (fun low => ?_) fun _ => ?_
      · have held := strides.fails (by omega)
        rw [Bool.not_eq_false'] at held
        rwa [Nat.sub_right_comm]
      · simpa using strides.held

end TernLang.Sorting
