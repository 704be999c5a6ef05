import Mathlib.Algebra.Order.Field.Rat
import Mathlib.Algebra.Order.Field.Power
import Mathlib.Tactic.FieldSimp
import Mathlib.Tactic.Linarith
import Mathlib.Tactic.NormNum
import Mathlib.Tactic.Positivity
import Mathlib.Tactic.Ring
import TernLang.Proofs.Number.Bits

/-! # Rounding to doubles

A quotient of naturals is rounded to magnitude bits. The rounding depends on the value of
the quotient alone (`bitsOfRatio_congr`), and **what is nearer to the magnitude of a
double than half of the gap to its neighbours is rounded to that double**
(`bitsOfRatio_of_near`). The gap below a power of two is half of the gap above it, so
there only a quarter of the latter is allowed.
-/

namespace TernLang.Number

/-- The value of a binary fraction. -/
def Dyadic.toRat (d : Dyadic) : ℚ :=
  d.mantissa * 2 ^ d.exponent

/-! ## Powers with integer exponents -/

section Powers

variable {e : ℤ}

theorem zpow_of_nonneg (b : ℚ) (natural : 0 ≤ e) : b ^ e = b ^ e.toNat := by
  rw [← zpow_natCast, Int.toNat_of_nonneg natural]

theorem zpow_of_neg (b : ℚ) (negative : ¬ 0 ≤ e) : b ^ e = (b ^ (-e).toNat)⁻¹ := by
  rw [← zpow_natCast, Int.toNat_of_nonneg (by omega), zpow_neg, inv_inv]

theorem two_zpow_pos (e : ℤ) : (0 : ℚ) < 2 ^ e :=
  zpow_pos two_pos e

theorem two_zpow_add (a b : ℤ) : (2 : ℚ) ^ (a + b) = 2 ^ a * 2 ^ b :=
  zpow_add₀ two_ne_zero a b

/-- Half of the gap between doubles. -/
theorem two_zpow_sub_one (e : ℤ) : (2 : ℚ) ^ (e - 1) = 2 ^ e / 2 :=
  zpow_sub_one₀ two_ne_zero e

/-- A quarter of the gap between doubles. -/
theorem two_zpow_sub_two (e : ℤ) : (2 : ℚ) ^ (e - 2) = 2 ^ e / 4 := by
  rw [zpow_sub₀ two_ne_zero]
  norm_num

end Powers

/-! ## Rounding a quotient to a natural number -/

section RoundDiv

variable {num den : Nat}

/-- What is nearer than a half is rounded to. -/
theorem roundDiv_eq_of_near {m : Nat} (above : 2 * num < 2 * m * den + den)
    (below : 2 * m * den < 2 * num + den) : roundDiv num den = m := by
  have pos : 0 < den := by
    by_contra zero
    obtain rfl : den = 0 := by omega
    omega
  have parts := Nat.div_add_mod num den
  have rest := Nat.mod_lt num pos
  unfold roundDiv
  generalize num / den = q at parts ⊢
  generalize num % den = r at parts rest ⊢
  -- the natural number is the quotient or the next one
  have least : q ≤ m := by
    by_contra less
    nlinarith
  have greatest : m ≤ q + 1 := by
    by_contra more
    nlinarith
  rcases Nat.lt_or_eq_of_le least with lt | rfl
  · obtain rfl : m = q + 1 := by omega
    have up : 2 * r > den := by nlinarith
    rw [if_pos (by simp [up])]
  · have down : 2 * r < den := by nlinarith
    rw [if_neg (by simp; omega)]

/-- Rounding a quotient does not depend on how the fraction is extended. -/
theorem roundDiv_mul (num den : Nat) {k : Nat} (pos : 0 < k) :
    roundDiv (num * k) (den * k) = roundDiv num den := by
  have quotient : num * k / (den * k) = num / den := Nat.mul_div_mul_right num den pos
  have rest : num * k % (den * k) = num % den * k := Nat.mul_mod_mul_right k num den
  have more : 2 * (num % den * k) > den * k ↔ 2 * (num % den) > den := by
    rw [← Nat.mul_assoc]
    exact Nat.mul_lt_mul_right pos
  have tie : 2 * (num % den * k) = den * k ↔ 2 * (num % den) = den := by
    rw [← Nat.mul_assoc]
    exact Nat.mul_left_inj (Nat.ne_of_gt pos)
  simp only [roundDiv, quotient, rest, more, Bool.or_eq_true, Bool.and_eq_true, beq_iff_eq, tie,
    decide_eq_true_eq]

/-- Rounding depends on the value of the quotient. -/
theorem roundDiv_congr {num' den' : Nat} (pos : 0 < den) (pos' : 0 < den')
    (same : num * den' = num' * den) : roundDiv num den = roundDiv num' den' := by
  rw [← roundDiv_mul num den pos', same, Nat.mul_comm den den', roundDiv_mul num' den' pos]

/-- Rounding never goes below the whole part. -/
theorem div_le_roundDiv (num den : Nat) : num / den ≤ roundDiv num den := by
  unfold roundDiv
  dsimp only
  split <;> omega

theorem roundDiv_one (num : Nat) : roundDiv num 1 = num :=
  roundDiv_eq_of_near (by omega) (by omega)

end RoundDiv

/-! ## The exponent of a quotient -/

section Exponent

variable {num den : Nat} {t : ℚ} {e e' : ℤ}

theorem scaleRatio_pos (num : Nat) (e : ℤ) (pos : 0 < den) : 0 < (scaleRatio num den e).2 := by
  unfold scaleRatio
  split
  · exact Nat.mul_pos pos (Nat.two_pow_pos _)
  · exact pos

/-- Scaling divides the value of a ratio by a power of two. -/
theorem scaleRatio_div (num den : Nat) (e : ℤ) :
    ((scaleRatio num den e).1 : ℚ) / (scaleRatio num den e).2 = num / den / 2 ^ e := by
  unfold scaleRatio
  split
  · rename_i natural
    rw [zpow_of_nonneg 2 natural, div_div, Nat.pow_eq]
    push_cast
    rfl
  · rename_i negative
    rw [zpow_of_neg 2 negative, div_inv_eq_mul, Nat.pow_eq]
    push_cast
    ring

/-- `e` is the exponent of a value: the mantissa has 53 bits, or the exponent is the smallest
there is and the mantissa has fewer. -/
structure IsExponent (t : ℚ) (e : ℤ) : Prop where
  least : minExponent ≤ e
  above : t < 2 ^ (e + 53)
  below : minExponent < e → 2 ^ (e + 52) ≤ t

/-- Of two exponents of one value neither is greater. -/
theorem IsExponent.le (small : IsExponent t e) (large : IsExponent t e') : e' ≤ e := by
  by_contra less
  have := large.below (lt_of_le_of_lt small.least (not_le.mp less))
  have := (zpow_lt_zpow_iff_right₀ one_lt_two).mp (this.trans_lt small.above)
  omega

/-- A value has one exponent. -/
theorem IsExponent.unique (first : IsExponent t e) (second : IsExponent t e') : e = e' :=
  le_antisymm (second.le first) (first.le second)

/-- The binary logarithm encloses a natural number between powers of two. -/
theorem natCast_log2_bounds {n : Nat} (some : n ≠ 0) :
    (2 : ℚ) ^ (n.log2 : ℤ) ≤ n ∧ (n : ℚ) < 2 ^ ((n.log2 : ℤ) + 1) := by
  have lower := Nat.log2_self_le some
  have upper := Nat.lt_log2_self (n := n)
  constructor
  · rw [zpow_natCast]
    exact_mod_cast lower
  · rw [← Nat.cast_succ, zpow_natCast]
    exact_mod_cast upper

/-- The lengths of numerator and denominator give a quotient up to a factor of two. -/
theorem quotient_bounds (some : num ≠ 0) (pos : 0 < den) :
    (2 : ℚ) ^ ((num.log2 : ℤ) - den.log2 - 1) < num / den ∧
      (num : ℚ) / den < 2 ^ ((num.log2 : ℤ) - den.log2 + 1) := by
  obtain ⟨numLower, numUpper⟩ := natCast_log2_bounds some
  obtain ⟨denLower, denUpper⟩ := natCast_log2_bounds (Nat.ne_of_gt pos)
  have denPos : (0 : ℚ) < den := by exact_mod_cast pos
  generalize (num.log2 : ℤ) = a at *
  generalize (den.log2 : ℤ) = b at *
  constructor
  · rw [lt_div_iff₀ denPos]
    calc (2 : ℚ) ^ (a - b - 1) * den < 2 ^ (a - b - 1) * 2 ^ (b + 1) :=
          mul_lt_mul_of_pos_left denUpper (two_zpow_pos _)
      _ = 2 ^ a := by
          rw [← two_zpow_add]
          congr 1
          omega
      _ ≤ num := numLower
  · rw [div_lt_iff₀ denPos]
    calc (num : ℚ) < 2 ^ (a + 1) := numUpper
      _ = 2 ^ (a - b + 1) * 2 ^ b := by
          rw [← two_zpow_add]
          congr 1
          omega
      _ ≤ 2 ^ (a - b + 1) * den := mul_le_mul_of_nonneg_left denLower (two_zpow_pos _).le

/-- A scaled ratio is at least one exactly when the power of two is at most the ratio. -/
theorem scaleRatio_le_iff (num : Nat) (e : ℤ) (pos : 0 < den) :
    (scaleRatio num den e).2 ≤ (scaleRatio num den e).1 ↔ (2 : ℚ) ^ e ≤ num / den := by
  have scaledPos : (0 : ℚ) < (scaleRatio num den e).2 := by
    exact_mod_cast scaleRatio_pos num e pos
  rw [← one_le_div (two_zpow_pos e), ← scaleRatio_div, one_le_div scaledPos, Nat.cast_le]

/-- The exponent that is computed for a quotient is its exponent. -/
theorem isExponent_exponentOfRatio (some : num ≠ 0) (pos : 0 < den) :
    IsExponent (num / den) (exponentOfRatio num den) := by
  obtain ⟨lower, upper⟩ := quotient_bounds some pos
  -- the quotient has 53 bits above this exponent
  obtain ⟨e, computed, below, above⟩ : ∃ e : ℤ, exponentOfRatio num den = max minExponent e ∧
      (2 : ℚ) ^ (e + 52) ≤ num / den ∧ (num : ℚ) / den < 2 ^ (e + 53) := by
    have scaled := scaleRatio_le_iff num ((num.log2 : ℤ) - den.log2) pos
    unfold exponentOfRatio
    dsimp only
    generalize (num.log2 : ℤ) - den.log2 = guess at *
    split
    · rename_i large
      refine ⟨guess - 52, rfl, ?_, ?_⟩
      · rw [Int.sub_add_cancel]
        exact scaled.mp large
      · rwa [show guess - 52 + 53 = guess + 1 by omega]
    · rename_i small
      refine ⟨guess - 53, rfl, ?_, ?_⟩
      · rw [show guess - 53 + 52 = guess - 1 by omega]
        exact lower.le
      · rw [Int.sub_add_cancel]
        exact not_le.mp (mt scaled.mpr small)
  rw [computed]
  refine ⟨le_max_left _ _, above.trans_le ((zpow_le_zpow_iff_right₀ one_lt_two).mpr ?_), fun more => ?_⟩
  · omega
  · rwa [max_eq_right_of_lt (by omega)]

end Exponent

/-! ## Magnitude bits -/

section Bits

variable {bits num den : Nat} {e : ℤ}

/-- The mantissa and the exponent of a finite magnitude are those of a double. -/
theorem dyadicOfBits_bounds (bits : Nat) :
    minExponent ≤ (dyadicOfBits bits).exponent ∧ (dyadicOfBits bits).mantissa < 2 ^ 53 ∧
      (minExponent < (dyadicOfBits bits).exponent → 2 ^ 52 ≤ (dyadicOfBits bits).mantissa) := by
  have least : minExponent = -1074 := rfl
  rcases Nat.lt_or_ge bits (2 ^ 52) with small | large
  · rw [dyadicOfBits_subnormal small, least]
    exact ⟨le_rfl, by dsimp only; omega, fun more => absurd more (lt_irrefl _)⟩
  · rw [dyadicOfBits_normal large, least]
    refine ⟨?_, ?_, fun _ => ?_⟩ <;> dsimp only <;> omega

theorem bitsOfDyadic_eq {d : Dyadic} (least : minExponent ≤ d.exponent)
    (same : (d.exponent + 1074) * 2 ^ 52 + d.mantissa = bits) (number : bits ≤ infinityBits) :
    bitsOfDyadic d = bits := by
  have smallest : minExponent = -1074 := rfl
  simp only [bitsOfDyadic, Nat.pow_eq]
  rw [smallest] at least ⊢
  rw [min_eq_right] <;> omega

/-- A magnitude has the bits that it was taken from. -/
theorem dyadicOfBits_bits (bits : Nat) :
    ((dyadicOfBits bits).exponent + 1074) * 2 ^ 52 + (dyadicOfBits bits).mantissa = bits := by
  rcases Nat.lt_or_ge bits (2 ^ 52) with small | large
  · rw [dyadicOfBits_subnormal small]
    dsimp only
    omega
  · rw [dyadicOfBits_normal large]
    dsimp only
    omega

/-- A mantissa and an exponent of a double are those of the bits that they have. -/
theorem dyadicOfBits_eq {d : Dyadic} (least : minExponent ≤ d.exponent)
    (short : d.mantissa < 2 ^ 53) (normal : minExponent < d.exponent → 2 ^ 52 ≤ d.mantissa)
    (same : (d.exponent + 1074) * 2 ^ 52 + d.mantissa = bits) : dyadicOfBits bits = d := by
  have smallest : minExponent = -1074 := rfl
  obtain ⟨m, e⟩ := d
  rw [smallest] at least normal
  dsimp only at least short normal same
  rcases Nat.lt_or_ge bits (2 ^ 52) with small | large
  · rw [dyadicOfBits_subnormal small]
    by_cases more : -1074 < e
    · omega
    · congr 1 <;> omega
  · rw [dyadicOfBits_normal large]
    by_cases more : -1074 < e
    · have := normal more
      congr 1 <;> omega
    · congr 1 <;> omega

/-- The only magnitude without mantissa is zero. -/
theorem bits_eq_zero (none : (dyadicOfBits bits).mantissa = 0) : bits = 0 := by
  obtain ⟨least, -, normal⟩ := dyadicOfBits_bounds bits
  have code := dyadicOfBits_bits bits
  have smallest : minExponent = -1074 := rfl
  omega

/-- What a quotient with this exponent is rounded to. -/
theorem bitsOfRatio_eq_bitsOfDyadic {m : Nat} (some : num ≠ 0) (pos : 0 < den)
    (exponent : IsExponent (num / den) e) (above : (num : ℚ) / den / 2 ^ e < m + 1 / 2)
    (below : (m : ℚ) - 1 / 2 < num / den / 2 ^ e) :
    bitsOfRatio num den = bitsOfDyadic ⟨m, e⟩ := by
  have scaledPos : (0 : ℚ) < (scaleRatio num den e).2 := by
    exact_mod_cast scaleRatio_pos num e pos
  rw [← scaleRatio_div] at above below
  rw [div_lt_iff₀ scaledPos] at above
  rw [lt_div_iff₀ scaledPos] at below
  have aboveNat : ((2 * (scaleRatio num den e).1 : Nat) : ℚ) <
      (2 * m * (scaleRatio num den e).2 + (scaleRatio num den e).2 : Nat) := by
    push_cast
    linarith
  have belowNat : ((2 * m * (scaleRatio num den e).2 : Nat) : ℚ) <
      (2 * (scaleRatio num den e).1 + (scaleRatio num den e).2 : Nat) := by
    push_cast
    linarith
  rw [bitsOfRatio, if_neg some, (isExponent_exponentOfRatio some pos).unique exponent]
  dsimp only
  rw [roundDiv_eq_of_near (Nat.cast_lt.mp aboveNat) (Nat.cast_lt.mp belowNat)]

section Congruence

variable {num' den' : Nat} (pos : 0 < den) (pos' : 0 < den') (same : (num : ℚ) / den = num' / den')

include pos pos' same

/-- Ratios of one value round alike at every exponent. -/
theorem roundDiv_scaleRatio_congr (e : ℤ) :
    roundDiv (scaleRatio num den e).1 (scaleRatio num den e).2 =
      roundDiv (scaleRatio num' den' e).1 (scaleRatio num' den' e).2 := by
  have scaledPos := scaleRatio_pos num e pos
  have scaledPos' := scaleRatio_pos num' e pos'
  have scaled : ((scaleRatio num den e).1 : ℚ) / (scaleRatio num den e).2 =
      (scaleRatio num' den' e).1 / (scaleRatio num' den' e).2 := by
    rw [scaleRatio_div, scaleRatio_div, same]
  rw [div_eq_div_iff (by exact_mod_cast Nat.ne_of_gt scaledPos)
    (by exact_mod_cast Nat.ne_of_gt scaledPos')] at scaled
  exact roundDiv_congr scaledPos scaledPos' (by exact_mod_cast scaled)

/-- Rounding depends on the value of the quotient. -/
theorem bitsOfRatio_congr : bitsOfRatio num den = bitsOfRatio num' den' := by
  have denPos : (den : ℚ) ≠ 0 := by exact_mod_cast Nat.ne_of_gt pos
  have denPos' : (den' : ℚ) ≠ 0 := by exact_mod_cast Nat.ne_of_gt pos'
  have zero : num = 0 ↔ num' = 0 := by
    constructor
    · rintro rfl
      simpa [denPos', eq_comm] using same
    · rintro rfl
      simpa [denPos] using same
  by_cases none : num = 0
  · rw [bitsOfRatio, if_pos none, bitsOfRatio, if_pos (zero.mp none)]
  · have none' := mt zero.mpr none
    have exponent := isExponent_exponentOfRatio none pos
    rw [same] at exponent
    have exponents := exponent.unique (isExponent_exponentOfRatio none' pos')
    rw [bitsOfRatio, if_neg none, bitsOfRatio, if_neg none', exponents]
    dsimp only
    rw [roundDiv_scaleRatio_congr pos pos' same]

end Congruence

/-- A quotient that is less than a power of two by less than a quarter of the gap above the
power is rounded to the power. -/
theorem bitsOfRatio_below_power (some : num ≠ 0) (pos : 0 < den) (least : minExponent < e)
    (code : (e + 1074) * 2 ^ 52 + 2 ^ 52 = bits) (finite : bits < infinityBits)
    (under : (num : ℚ) / den < 2 ^ (e + 52)) (near : 2 ^ (e + 52) - 2 ^ (e - 2) < (num : ℚ) / den) :
    bitsOfRatio num den = bits := by
  have least' : minExponent ≤ e - 1 := Int.le_sub_one_of_lt least
  have unit := two_zpow_pos e
  have half := two_zpow_sub_one e
  rw [two_zpow_sub_two] at near
  have exponent : IsExponent (num / den) (e - 1) := by
    refine ⟨least', ?_, fun _ => ?_⟩
    · rwa [show e - 1 + 53 = e + 52 by omega]
    · rw [two_zpow_add, zpow_ofNat] at near ⊢
      rw [half]
      linarith
  rw [two_zpow_add, zpow_ofNat] at under near
  rw [bitsOfRatio_eq_bitsOfDyadic some pos exponent (m := 2 ^ 53),
    bitsOfDyadic_eq least' ?_ finite.le]
  · dsimp only
    omega
  · rw [half, div_lt_iff₀ (by linarith)]
    push_cast
    linarith
  · rw [half, lt_div_iff₀ (by linarith)]
    push_cast
    linarith

/-- **What is near to a double is rounded to it**: nearer than half of the gap to the next
double, and below a power of two nearer than a quarter of it. -/
theorem bitsOfRatio_of_near (some : num ≠ 0) (pos : 0 < den) (finite : bits < infinityBits)
    (above : (num : ℚ) / den < (dyadicOfBits bits).toRat + 2 ^ ((dyadicOfBits bits).exponent - 1))
    (below : (dyadicOfBits bits).toRat - 2 ^ ((dyadicOfBits bits).exponent - 1) < num / den)
    (power : (dyadicOfBits bits).mantissa = 2 ^ 52 →
      (dyadicOfBits bits).toRat - 2 ^ ((dyadicOfBits bits).exponent - 2) < num / den) :
    bitsOfRatio num den = bits := by
  obtain ⟨least, short, normal⟩ := dyadicOfBits_bounds bits
  have code := dyadicOfBits_bits bits
  generalize dyadicOfBits bits = d at *
  obtain ⟨m, e⟩ := d
  dsimp only [Dyadic.toRat] at *
  have unit := two_zpow_pos e
  have bottom : (2 : ℚ) ^ (e + 52) = 2 ^ 52 * 2 ^ e := by
    rw [two_zpow_add, zpow_ofNat, mul_comm]
  rw [two_zpow_sub_one] at above below
  by_cases regular : minExponent < e → (2 : ℚ) ^ (e + 52) ≤ num / den
  · -- the quotient has the exponent of the double
    have small : (num : ℚ) / den < 2 ^ (e + 53) := by
      have : (m : ℚ) + 1 ≤ 2 ^ 53 := by exact_mod_cast short
      rw [two_zpow_add, zpow_ofNat]
      nlinarith
    rw [bitsOfRatio_eq_bitsOfDyadic some pos ⟨least, small, regular⟩,
      bitsOfDyadic_eq least code finite.le]
    · rw [div_lt_iff₀ unit]
      linarith
    · rw [lt_div_iff₀ unit]
      linarith
  · -- the double is a power of two and the quotient is below it
    push Not at regular
    obtain ⟨more, under⟩ := regular
    obtain rfl : m = 2 ^ 52 := by
      refine le_antisymm ?_ (normal more)
      by_contra larger
      have : (2 : ℚ) ^ 52 + 1 ≤ m := by exact_mod_cast not_le.mp larger
      rw [bottom] at under
      nlinarith
    refine bitsOfRatio_below_power some pos more (by exact_mod_cast code) finite under ?_
    rw [bottom]
    exact_mod_cast power rfl

end Bits

/-! ## Whole magnitudes -/

/-- The value has no fractional part. -/
def Dyadic.IsWhole (d : Dyadic) : Prop :=
  0 ≤ d.exponent ∨ d.mantissa % 2 ^ (-d.exponent).toNat = 0

theorem isWhole_zero : (dyadicOfBits 0).IsWhole := by
  have mantissa : (dyadicOfBits 0).mantissa = 0 := rfl
  right
  rw [mantissa, Nat.zero_mod]

/-- Finite bits of a dyadic number give its exponent and mantissa back. -/
theorem bitsOfDyadic_lt {d : Dyadic} (least : minExponent ≤ d.exponent)
    (finite : bitsOfDyadic d < infinityBits) :
    (d.exponent + 1074) * 2 ^ 52 + d.mantissa = bitsOfDyadic d := by
  have smallest : minExponent = -1074 := rfl
  simp only [bitsOfDyadic, Nat.pow_eq] at finite ⊢
  rw [min_eq_right (by omega)]
  rw [smallest] at least ⊢
  omega

/-- A natural number that has an exponent of at least zero is rounded to a whole number. -/
theorem isWhole_of_exponent {bits m : Nat} {e : ℤ} (natural : 0 ≤ e) (large : 2 ^ 52 ≤ m)
    (code : (e + 1074) * 2 ^ 52 + m = bits) : (dyadicOfBits bits).IsWhole := by
  left
  rw [dyadicOfBits_normal (by omega)]
  dsimp only
  omega

/-- Where a natural number has no larger exponent than zero, its mantissa is a multiple of it. -/
theorem IsExponent.mantissa {n : Nat} {e : ℤ} (exponent : IsExponent n e) (small : e ≤ 0) :
    ((n * 2 ^ (-e).toNat : Nat) : ℚ) = n / 2 ^ e ∧ n * 2 ^ (-e).toNat < 2 ^ 53 ∧
      (minExponent < e → 2 ^ 52 ≤ n * 2 ^ (-e).toNat) := by
  obtain ⟨least, above, below⟩ := exponent
  have scaled : ((n * 2 ^ (-e).toNat : Nat) : ℚ) = n / 2 ^ e := by
    rw [div_eq_mul_inv, ← zpow_neg, zpow_of_nonneg 2 (by omega)]
    push_cast
    rfl
  rw [two_zpow_add, zpow_ofNat, mul_comm] at above below
  rw [← div_lt_iff₀ (two_zpow_pos e), ← scaled] at above
  rw [← le_div_iff₀ (two_zpow_pos e), ← scaled] at below
  exact ⟨scaled, by exact_mod_cast above, fun more => by exact_mod_cast below more⟩

/-- A natural number that has a smaller exponent is not rounded. -/
theorem isWhole_of_product {bits n : Nat} {e : ℤ} (exponent : IsExponent n e) (negative : ¬ 0 ≤ e)
    (code : (e + 1074) * 2 ^ 52 + (n * 2 ^ (-e).toNat : Nat) = bits) :
    (dyadicOfBits bits).IsWhole := by
  obtain ⟨-, width, normal⟩ := exponent.mantissa (by omega)
  right
  rw [dyadicOfBits_eq (d := ⟨n * 2 ^ (-e).toNat, e⟩) exponent.least width normal code]
  exact Nat.mul_mod_left _ _

/-- **A natural number is rounded to a whole number.** -/
theorem isWhole_bitsOfRatio {n : Nat} (finite : bitsOfRatio n 1 < infinityBits) :
    (dyadicOfBits (bitsOfRatio n 1)).IsWhole := by
  by_cases some : n = 0
  · subst some
    rw [bitsOfRatio, if_pos rfl]
    exact isWhole_zero
  have exponent : IsExponent ((n : ℚ) / (1 : Nat)) (exponentOfRatio n 1) :=
    isExponent_exponentOfRatio some one_pos
  have computed : bitsOfRatio n 1 = bitsOfDyadic ⟨roundDiv
      (scaleRatio n 1 (exponentOfRatio n 1)).1 (scaleRatio n 1 (exponentOfRatio n 1)).2,
      exponentOfRatio n 1⟩ := if_neg some
  generalize exponentOfRatio n 1 = e at *
  have code := bitsOfDyadic_lt (d := ⟨_, e⟩) exponent.least (computed ▸ finite)
  rw [← computed] at code
  by_cases natural : 0 ≤ e
  · refine isWhole_of_exponent natural ?_ code
    -- a mantissa of 53 bits is rounded to at least that
    have scaledPos := scaleRatio_pos n e one_pos
    have large : (2 : ℚ) ^ 52 ≤ (scaleRatio n 1 e).1 / (scaleRatio n 1 e).2 := by
      have below := exponent.below (lt_of_lt_of_le (by decide) natural)
      rw [two_zpow_add, zpow_ofNat, mul_comm] at below
      rwa [scaleRatio_div, le_div_iff₀ (two_zpow_pos e)]
    rw [le_div_iff₀ (by exact_mod_cast scaledPos)] at large
    exact ((Nat.le_div_iff_mul_le scaledPos).mpr (by exact_mod_cast large)).trans
      (div_le_roundDiv _ _)
  · have product : scaleRatio n 1 e = (n * 2 ^ (-e).toNat, 1) := if_neg natural
    rw [Nat.cast_one, div_one] at exponent
    rw [product, roundDiv_one] at code
    exact isWhole_of_product exponent natural code

end TernLang.Number
