import Mathlib.Data.Prod.Lex
import Mathlib.Order.Compare
import TernLang.Proofs.Number.Equality

/-! # The order of doubles

Doubles that are no NaNs have a place on a line (`place`), and **they are compared by
their places** (`compare_eq_cmp`), so `≤` is a total preorder on them. With NaNs, less is
left: of two doubles at most one is less than the other (`not_lt_of_lt`).
-/

namespace TernLang.Number

open Float.Model

/-- The place of a double that is no NaN: first by its sign and by whether it is
infinite, then by its exponent, then by its mantissa. -/
def place : UnpackedFloat → ℤ ×ₗ ℤ ×ₗ ℤ
  | .infinity .negative => toLex (-2, toLex (0, 0))
  | .finite .negative m e _ => toLex (-1, toLex (-e, -m))
  | .zero _ => toLex (0, toLex (0, 0))
  | .finite .positive m e _ => toLex (1, toLex (e, m))
  | .infinity .positive => toLex (2, toLex (0, 0))
  | .notANumber => toLex (3, toLex (0, 0))

section Compare

theorem cmp_toLex_of_lt {a b : ℤ} {x y : ℤ ×ₗ ℤ} (lt : a < b) :
    cmp (toLex (a, x)) (toLex (b, y)) = .lt :=
  cmp_eq_lt_iff _ _ |>.mpr (Prod.Lex.toLex_lt_toLex.mpr (.inl lt))

theorem cmp_toLex_of_gt {a b : ℤ} {x y : ℤ ×ₗ ℤ} (gt : b < a) :
    cmp (toLex (a, x)) (toLex (b, y)) = .gt :=
  cmp_eq_gt_iff _ _ |>.mpr (Prod.Lex.toLex_lt_toLex.mpr (.inl gt))

/-- Doubles of one sign are compared by their exponents, then by their mantissas. -/
theorem then_compare_eq_cmp (sign e e' m m' : ℤ) :
    (compare e e').then (compare m m') =
      cmp (toLex (sign, toLex (e, m))) (toLex (sign, toLex (e', m'))) := by
  rcases lt_trichotomy e e' with lt | rfl | gt
  · rw [compare_lt_iff_lt.mpr lt]
    refine (cmp_eq_lt_iff _ _ |>.mpr ?_).symm
    simp [Prod.Lex.toLex_lt_toLex, lt]
  · rw [compare_eq_iff_eq.mpr rfl]
    rcases lt_trichotomy m m' with lt | rfl | gt
    · rw [compare_lt_iff_lt.mpr lt]
      refine (cmp_eq_lt_iff _ _ |>.mpr ?_).symm
      simp [Prod.Lex.toLex_lt_toLex, lt]
    · rw [compare_eq_iff_eq.mpr rfl, cmp_self_eq_eq]
      rfl
    · rw [compare_gt_iff_gt.mpr gt]
      refine (cmp_eq_gt_iff _ _ |>.mpr ?_).symm
      simp [Prod.Lex.toLex_lt_toLex, gt]
  · rw [compare_gt_iff_gt.mpr gt]
    refine (cmp_eq_gt_iff _ _ |>.mpr ?_).symm
    simp [Prod.Lex.toLex_lt_toLex, gt]

theorem compare_neg_neg (a b : ℤ) : compare (-a) (-b) = (compare a b).swap := by
  rcases lt_trichotomy a b with lt | rfl | gt
  · rw [compare_lt_iff_lt.mpr lt, compare_gt_iff_gt.mpr (Int.neg_lt_neg lt)]
    rfl
  · rw [compare_eq_iff_eq.mpr rfl, compare_eq_iff_eq.mpr rfl]
    rfl
  · rw [compare_gt_iff_gt.mpr gt, compare_lt_iff_lt.mpr (Int.neg_lt_neg gt)]
    rfl

theorem compare_natCast (m m' : Nat) : compare (m : ℤ) m' = compare m m' := by
  rcases lt_trichotomy m m' with lt | rfl | gt
  · rw [compare_lt_iff_lt.mpr lt, compare_lt_iff_lt.mpr (Int.ofNat_lt.mpr lt)]
  · rw [compare_eq_iff_eq.mpr rfl, compare_eq_iff_eq.mpr rfl]
  · rw [compare_gt_iff_gt.mpr gt, compare_gt_iff_gt.mpr (Int.ofNat_lt.mpr gt)]

/-- Comparing exponents and then mantissas orders positive places. -/
theorem compare_positive (e e' : ℤ) (m m' : Nat) :
    (compare e e').then (compare m m') =
      cmp (toLex ((1 : ℤ), toLex (e, (m : ℤ)))) (toLex ((1 : ℤ), toLex (e', (m' : ℤ)))) := by
  rw [← then_compare_eq_cmp, compare_natCast]

/-- Among negative numbers the comparison is turned around. -/
theorem compare_negative (e e' : ℤ) (m m' : Nat) :
    ((compare e e').then (compare m m')).swap =
      cmp (toLex ((-1 : ℤ), toLex (-e, -(m : ℤ))))
        (toLex ((-1 : ℤ), toLex (-e', -(m' : ℤ)))) := by
  rw [← then_compare_eq_cmp, compare_neg_neg, compare_neg_neg, compare_natCast,
    Ordering.swap_then]

/-- **Doubles are compared by their places.** -/
theorem compare_eq_cmp {a b : UnpackedFloat} (number : a.isNaN = false) (number' : b.isNaN = false) :
    a.compare b = some (cmp (place a) (place b)) := by
  cases a with
  | notANumber => cases number
  | zero s =>
      cases b with
      | notANumber => cases number'
      | zero s' => exact congrArg some (cmp_self_eq_eq _).symm
      | infinity s' | finite s' =>
          cases s'
          · exact congrArg some (cmp_toLex_of_gt (by decide)).symm
          · exact congrArg some (cmp_toLex_of_lt (by decide)).symm
  | infinity s =>
      cases b with
      | notANumber => cases number'
      | infinity s' =>
          cases s <;> cases s' <;> rfl
      | zero s' =>
          cases s
          · exact congrArg some (cmp_toLex_of_lt (by decide)).symm
          · exact congrArg some (cmp_toLex_of_gt (by decide)).symm
      | finite s' =>
          cases s <;> cases s' <;>
          first
          | exact congrArg some (cmp_toLex_of_lt (by decide)).symm
          | exact congrArg some (cmp_toLex_of_gt (by decide)).symm
  | finite s m e some =>
      cases b with
      | notANumber => cases number'
      | zero s' =>
          cases s
          · exact congrArg Option.some (cmp_toLex_of_lt (by decide)).symm
          · exact congrArg Option.some (cmp_toLex_of_gt (by decide)).symm
      | infinity s' =>
          cases s <;> cases s' <;>
          first
          | exact congrArg Option.some (cmp_toLex_of_lt (by decide)).symm
          | exact congrArg Option.some (cmp_toLex_of_gt (by decide)).symm
      | finite s' m' e' some' =>
          cases s <;> cases s'
          · exact congrArg Option.some (compare_negative e e' m m')
          · exact congrArg Option.some (cmp_toLex_of_lt (by decide)).symm
          · exact congrArg Option.some (cmp_toLex_of_gt (by decide)).symm
          · exact congrArg Option.some (compare_positive e e' m m')

end Compare

/-! ## Less, and at most -/

theorem lt_iff_compare {x y : Float} :
    x < y ↔ x.toModel.unpack.compare y.toModel.unpack = some .lt := by
  show decide (x.toModel < y.toModel) = true ↔ _
  rw [decide_eq_true_iff]
  show (x.toModel.unpack.compare y.toModel.unpack == some .lt) = true ↔ _
  rw [beq_iff_eq]

theorem le_iff_compare {x y : Float} :
    x ≤ y ↔ (x.toModel.unpack.compare y.toModel.unpack).any (·.isLE) = true := by
  show decide (x.toModel ≤ y.toModel) = true ↔ _
  rw [decide_eq_true_iff]
  rfl

theorem compare_eq_none {a b : UnpackedFloat} (nan : a.isNaN = true ∨ b.isNaN = true) :
    a.compare b = none := by
  rcases nan with nan | nan
  · cases a with
    | notANumber => cases b <;> rfl
    | zero | infinity | finite => cases nan
  · cases b with
    | notANumber => cases a <;> rfl
    | zero | infinity | finite => cases nan

section Numbers

variable {x y z : Float}

theorem number_of_lt (lt : x < y) : x.isNaN = false ∧ y.isNaN = false := by
  rw [lt_iff_compare] at lt
  refine ⟨Bool.eq_false_iff.mpr fun nan => ?_, Bool.eq_false_iff.mpr fun nan => ?_⟩
  · rw [compare_eq_none (.inl nan)] at lt
    cases lt
  · rw [compare_eq_none (.inr nan)] at lt
    cases lt

/-- The order of numbers is that of their places. -/
theorem lt_iff_place (number : x.isNaN = false) (number' : y.isNaN = false) :
    x < y ↔ place x.toModel.unpack < place y.toModel.unpack := by
  rw [lt_iff_compare, compare_eq_cmp number number', Option.some_inj, cmp_eq_lt_iff]

theorem le_iff_place (number : x.isNaN = false) (number' : y.isNaN = false) :
    x ≤ y ↔ place x.toModel.unpack ≤ place y.toModel.unpack := by
  rw [le_iff_compare, compare_eq_cmp number number', ← not_lt, ← cmp_eq_gt_iff, Option.any_some]
  cases cmp (place x.toModel.unpack) (place y.toModel.unpack) <;> decide

/-- What is at most another is a number, and so is the other. -/
theorem number_of_le (le : x ≤ y) : x.isNaN = false ∧ y.isNaN = false := by
  rw [le_iff_compare] at le
  refine ⟨Bool.eq_false_iff.mpr fun nan => ?_, Bool.eq_false_iff.mpr fun nan => ?_⟩
  · rw [compare_eq_none (.inl nan)] at le
    cases le
  · rw [compare_eq_none (.inr nan)] at le
    cases le

theorem le_trans (first : x ≤ y) (second : y ≤ z) : x ≤ z := by
  obtain ⟨number, number'⟩ := number_of_le first
  obtain ⟨-, number''⟩ := number_of_le second
  rw [le_iff_place number number'] at first
  rw [le_iff_place number' number''] at second
  exact (le_iff_place number number'').mpr (first.trans second)

/-- **Of two doubles, also of NaNs, at most one is less than the other.** -/
theorem not_lt_of_lt (lt : x < y) : ¬ y < x := by
  obtain ⟨number, number'⟩ := number_of_lt lt
  rw [lt_iff_place number' number]
  exact ((lt_iff_place number number').mp lt).asymm

/-- Between numbers, not above is at most. -/
theorem not_lt_iff_le (number : x.isNaN = false) (number' : y.isNaN = false) :
    ¬ y < x ↔ x ≤ y := by
  rw [lt_iff_place number' number, le_iff_place number number', not_lt]

end Numbers

end TernLang.Number
