import TernLang.Number.Decimal
import TernLang.Proofs.Number.Rounding

/-! # The shortest decimal of a double

**The decimal that is printed for a double reads back as that double** (`bits_shortest`).
That it does for each width that is tried is checked when it is found; that one is found
within seventeen digits is a matter of distances: the multiples of a power of ten that
leave seventeen digits are closer together than the doubles are, so the one nearest to a
double is rounded to it (`readingBack?_seventeen`).
-/

namespace TernLang.Number

namespace Decimal

def toRat (d : Decimal) : ℚ :=
  d.digits * 10 ^ d.exponent

theorem ten_zpow_pos (e : ℤ) : (0 : ℚ) < 10 ^ e :=
  zpow_pos Nat.ofNat_pos e

theorem ten_zpow_add (a b : ℤ) : (10 : ℚ) ^ (a + b) = 10 ^ a * 10 ^ b :=
  zpow_add₀ (OfNat.ofNat_ne_zero 10) a b

variable {d d' value : Decimal} {bits : Nat}

/-! ## Reading -/

theorem ratio_pos (d : Decimal) : 0 < d.ratio.2 := by
  unfold ratio
  split
  · exact Nat.one_pos
  · exact Nat.pow_pos (by decide)

/-- The ratio of a decimal is its value. -/
theorem ratio_div (d : Decimal) : (d.ratio.1 : ℚ) / d.ratio.2 = d.toRat := by
  unfold ratio toRat
  split
  · rename_i natural
    rw [zpow_of_nonneg 10 natural, Nat.pow_eq]
    push_cast
    rw [div_one]
  · rename_i negative
    rw [zpow_of_neg 10 negative, Nat.pow_eq]
    push_cast
    rw [div_eq_mul_inv]

theorem ratio_ne_zero (some : d.digits ≠ 0) : d.ratio.1 ≠ 0 := by
  unfold ratio
  split
  · exact Nat.mul_ne_zero some (Nat.ne_of_gt (Nat.pow_pos (by decide)))
  · exact some

/-- A decimal is read by its value. -/
theorem bits_congr (same : d.toRat = d'.toRat) : d.bits = d'.bits :=
  bitsOfRatio_congr d.ratio_pos d'.ratio_pos (by rw [ratio_div, ratio_div, same])

/-- A decimal without digits is the zero. -/
theorem bits_of_zero (none : d.digits = 0) : d.bits = 0 := by
  have ratio : d.ratio.1 = 0 := by
    unfold Decimal.ratio
    rw [none]
    split
    · exact Nat.zero_mul _
    · rfl
  rw [Decimal.bits, ratio, bitsOfRatio, if_pos rfl]

/-- A decimal that has the value of a double is read as that double. -/
theorem bits_of_toRat_eq (finite : bits < infinityBits)
    (same : d.toRat = (dyadicOfBits bits).toRat) : d.bits = bits := by
  by_cases some : d.digits = 0
  · rw [bits_of_zero some]
    rw [toRat, some, Nat.cast_zero, zero_mul, Dyadic.toRat, eq_comm, mul_eq_zero] at same
    have none := same.resolve_right (two_zpow_pos _).ne'
    exact (bits_eq_zero (by exact_mod_cast none)).symm
  · have half := two_zpow_pos ((dyadicOfBits bits).exponent - 1)
    have quarter := two_zpow_pos ((dyadicOfBits bits).exponent - 2)
    refine bitsOfRatio_of_near (ratio_ne_zero some) d.ratio_pos finite ?_ ?_ fun _ => ?_ <;>
      rw [ratio_div, same] <;> linarith

/-- The exact decimal of a binary fraction has the same value. -/
theorem toRat_exact (value : Dyadic) : (exact value).toRat = value.toRat := by
  unfold exact toRat Dyadic.toRat
  split
  · rename_i natural
    rw [zpow_of_nonneg 2 natural, zpow_zero, mul_one, Nat.pow_eq]
    push_cast
    rfl
  · rename_i negative
    rw [zpow_of_neg 10 negative, zpow_of_neg 2 negative, Nat.pow_eq,
      show (10 : ℚ) = 2 * 5 by norm_num, mul_pow]
    push_cast
    field_simp

/-! ## Zeros at the end -/

/-- Dropping zeros at the end does not change the value. -/
theorem toRat_dropZeros (fuel : Nat) (d : Decimal) : (dropZeros fuel d).toRat = d.toRat := by
  induction fuel generalizing d with
  | zero => rfl
  | succ fuel ih =>
      unfold dropZeros
      split
      · rename_i zeros
        have digits : d.digits = 10 * (d.digits / 10) := by omega
        rw [ih, toRat, toRat, ten_zpow_add]
        dsimp only
        rw [zpow_one]
        conv_rhs => rw [digits]
        push_cast
        ring
      · rfl

/-- No zero is left when the digits are at most as many as are looked at. -/
theorem dropZeros_mod {fuel : Nat} (some : d.digits ≠ 0) (short : d.digits < 10 ^ fuel) :
    (dropZeros fuel d).digits % 10 ≠ 0 := by
  induction fuel generalizing d with
  | zero => omega
  | succ fuel ih =>
      unfold dropZeros
      split
      · exact ih (by dsimp only; omega) (by dsimp only; rw [Nat.pow_succ] at short; omega)
      · omega

/-! ## Widths -/

/-- A natural number has at most `k` digits exactly when it is below the power. -/
theorem length_digitChars_le_iff {n k : Nat} (some : 0 < k) :
    (digitChars n).length ≤ k ↔ n < 10 ^ k :=
  Nat.length_toDigits_le_iff (by decide) some

theorem length_digitChars_pos (n : Nat) : 0 < (digitChars n).length :=
  List.length_pos_iff.mpr Nat.toDigits_ne_nil

/-- The position of the point is the magnitude of a decimal. -/
theorem toRat_lt (d : Decimal) : d.toRat < 10 ^ d.pointPosition := by
  have short := (length_digitChars_le_iff (length_digitChars_pos d.digits)).mp le_rfl
  rw [toRat, pointPosition, ten_zpow_add, zpow_natCast]
  exact mul_lt_mul_of_pos_right (by exact_mod_cast short) (ten_zpow_pos _)

/-- The first digit of a decimal stands at its point position. -/
theorem le_toRat (some : d.digits ≠ 0) : 10 ^ (d.pointPosition - 1) ≤ d.toRat := by
  have pos := length_digitChars_pos d.digits
  have long : 10 ^ ((digitChars d.digits).length - 1) ≤ d.digits := by
    rcases Nat.eq_zero_or_pos ((digitChars d.digits).length - 1) with one | more
    · rw [one]
      omega
    · by_contra short
      have := (length_digitChars_le_iff more).mpr (not_le.mp short)
      omega
  have position : d.pointPosition - 1 = ((digitChars d.digits).length - 1 : Nat) + d.exponent := by
    rw [pointPosition]
    omega
  rw [position, toRat, ten_zpow_add, zpow_natCast]
  exact mul_le_mul_of_nonneg_right (by exact_mod_cast long) (ten_zpow_pos _).le

/-- The neighbours of a decimal are consecutive multiples, and it is not below the first and
below the second. -/
theorem neighbours_spec (value : Decimal) (e : ℤ) : ∃ lower : Nat,
    value.neighbours e = (⟨lower, e⟩, ⟨lower + 1, e⟩) ∧
      lower * 10 ^ e ≤ value.toRat ∧ value.toRat < (lower + 1 : Nat) * 10 ^ e := by
  obtain ⟨digits, e'⟩ := value
  unfold neighbours toRat
  dsimp only
  split
  · rename_i coarse
    -- the unit is not above that of the decimal, which is a multiple of it
    obtain ⟨k, rfl⟩ := Int.le.dest coarse
    have exact : (digits : ℚ) * 10 ^ (e + k) = (digits * 10 ^ k : Nat) * 10 ^ e := by
      rw [ten_zpow_add, zpow_natCast]
      push_cast
      ring
    refine ⟨digits * 10 ^ k, ?_, ?_, ?_⟩
    · rw [add_sub_cancel_left, Int.toNat_natCast]
      rfl
    · rw [exact]
    · rw [exact]
      exact mul_lt_mul_of_pos_right (by exact_mod_cast Nat.lt_succ_self _) (ten_zpow_pos e)
  · rename_i fine
    -- the digits below the unit are cut off
    obtain ⟨k, rfl⟩ := Int.le.dest (not_le.mp fine).le
    have unit : (0 : ℚ) < 10 ^ e' := ten_zpow_pos e'
    have pos : 0 < 10 ^ k := Nat.pow_pos (by decide)
    refine ⟨digits / 10 ^ k, ?_, ?_, ?_⟩
    · rw [add_sub_cancel_left, Int.toNat_natCast]
      rfl
    · have : ((digits / 10 ^ k * 10 ^ k : Nat) : ℚ) ≤ digits := by
        exact_mod_cast Nat.div_mul_le_self digits (10 ^ k)
      rw [ten_zpow_add, zpow_natCast, mul_comm ((10 : ℚ) ^ e'), ← mul_assoc]
      push_cast at this
      exact mul_le_mul_of_nonneg_right this unit.le
    · have : (digits : ℚ) < ((digits / 10 ^ k + 1) * 10 ^ k : Nat) := by
        exact_mod_cast Nat.lt_mul_of_div_lt (Nat.lt_succ_self _) pos
      rw [ten_zpow_add, zpow_natCast, mul_comm ((10 : ℚ) ^ e'), ← mul_assoc]
      push_cast at this ⊢
      exact mul_lt_mul_of_pos_right this unit

/-- What is found for a width reads back, and has at most that many digits. -/
theorem readingBack?_spec {width : Nat}
    (found : readingBack? bits value (value.pointPosition - width) = some d) :
    d.bits = bits ∧ d.digits ≤ 10 ^ width := by
  obtain ⟨lower, neighbours, below, -⟩ := neighbours_spec value (value.pointPosition - width)
  have short : lower < 10 ^ width := by
    have : (lower : ℚ) * 10 ^ (value.pointPosition - width) <
        10 ^ width * 10 ^ (value.pointPosition - width) := by
      refine below.trans_lt (value.toRat_lt.trans_eq ?_)
      rw [← zpow_natCast, ← ten_zpow_add]
      congr 1
      omega
    exact_mod_cast lt_of_mul_lt_mul_right this (ten_zpow_pos _).le
  rw [readingBack?, neighbours] at found
  dsimp only at found
  split at found
  · rename_i reads
    rw [Bool.and_eq_true, beq_iff_eq] at reads
    cases found
    exact ⟨reads.1, short.le⟩
  · split at found
    · rename_i reads
      cases found
      exact ⟨beq_iff_eq.mp reads, short⟩
    · cases found

/-- What is within half of a unit of a double is rounded to it, if the double has ten to the
sixteenth such units: doubles of that size are further apart. -/
theorem bits_of_close {unit : ℚ} (some : d.digits ≠ 0) (finite : bits < infinityBits)
    (fine : 10 ^ 16 * unit ≤ (dyadicOfBits bits).toRat) (unitPos : 0 < unit)
    (below : (dyadicOfBits bits).toRat - unit / 2 ≤ d.toRat)
    (above : d.toRat ≤ (dyadicOfBits bits).toRat + unit / 2) : d.bits = bits := by
  have half := two_zpow_sub_one (dyadicOfBits bits).exponent
  have quarter := two_zpow_sub_two (dyadicOfBits bits).exponent
  have gap := two_zpow_pos (dyadicOfBits bits).exponent
  have short : ((dyadicOfBits bits).mantissa : ℚ) < 2 ^ 53 := by
    exact_mod_cast (dyadicOfBits_bounds bits).2.1
  have closer : unit < 2 ^ (dyadicOfBits bits).exponent := by
    rw [Dyadic.toRat] at fine
    nlinarith
  refine bitsOfRatio_of_near (ratio_ne_zero some) d.ratio_pos finite ?_ ?_ fun power => ?_ <;>
    rw [ratio_div]
  · linarith
  · linarith
  · -- the mantissa is so small here that the bound is better
    have closest : unit < 2 ^ (dyadicOfBits bits).exponent / 2 := by
      rw [Dyadic.toRat, power] at fine
      push_cast at fine
      linarith
    linarith

/-- **Seventeen digits are enough**: one of the neighbours of a double with so many digits
reads back as that double. -/
theorem readingBack?_seventeen (some : bits ≠ 0) (finite : bits < infinityBits)
    (same : value.toRat = (dyadicOfBits bits).toRat) :
    readingBack? bits value (value.pointPosition - 17) ≠ none := by
  have mantissa : (0 : ℚ) < (dyadicOfBits bits).mantissa := by
    exact_mod_cast Nat.pos_of_ne_zero (mt bits_eq_zero some)
  have pos : 0 < value.toRat := same ▸ mul_pos mantissa (two_zpow_pos _)
  have digits : value.digits ≠ 0 := by
    intro none
    rw [toRat, none, Nat.cast_zero, zero_mul] at pos
    exact lt_irrefl _ pos
  have large := le_toRat digits
  obtain ⟨lower, neighbours, below, above⟩ := neighbours_spec value (value.pointPosition - 17)
  have unitPos := ten_zpow_pos (value.pointPosition - 17)
  rw [show value.pointPosition - 1 = 16 + (value.pointPosition - 17) by omega, ten_zpow_add,
    zpow_ofNat] at large
  rw [readingBack?, neighbours]
  dsimp only
  have positive : lower ≠ 0 := by
    rintro rfl
    push_cast at above
    linarith
  -- one of the neighbours is at most half a unit away, and so reads back
  have reads : Decimal.bits ⟨lower, value.pointPosition - 17⟩ = bits ∨
      Decimal.bits ⟨lower + 1, value.pointPosition - 17⟩ = bits := by
    rw [same] at below above large
    rcases le_total ((dyadicOfBits bits).toRat - lower * 10 ^ (value.pointPosition - 17))
      (10 ^ (value.pointPosition - 17) / 2) with near | far
    · left
      refine bits_of_close positive finite large unitPos ?_ ?_ <;>
        simp only [toRat] <;> linarith
    · right
      refine bits_of_close (Nat.succ_ne_zero lower) finite large unitPos ?_ ?_ <;>
        simp only [toRat] <;> push_cast at above ⊢ <;> linarith
  by_cases upper : Decimal.bits ⟨lower + 1, value.pointPosition - 17⟩ = bits
  · rw [upper, beq_self_eq_true, if_pos rfl]
    split <;> exact Option.some_ne_none _
  · rw [reads.resolve_right upper, beq_self_eq_true, beq_eq_false_iff_ne.mpr upper]
    exact Option.some_ne_none _

/-! ## The shortest decimal -/

/-- The decimal that is found before its zeros are dropped. -/
theorem exists_found (some : bits ≠ 0) (finite : bits < infinityBits) :
    ∃ d : Decimal, shortest bits = dropZeros 20 d ∧ d.bits = bits ∧ d.digits ≤ 10 ^ 17 := by
  unfold shortest
  generalize same : exact (dyadicOfBits bits) = value
  have exact : value.toRat = (dyadicOfBits bits).toRat := same ▸ toRat_exact _
  dsimp only
  generalize search : (List.range' 1 17).findSome?
    (fun width : Nat => readingBack? bits value (value.pointPosition - width)) = found
  cases found with
  | none =>
      exact absurd (List.findSome?_eq_none_iff.mp search 17 (by decide))
        (readingBack?_seventeen some finite exact)
  | some d =>
      obtain ⟨width, tried, found⟩ := List.exists_of_findSome?_eq_some search
      obtain ⟨reads, short⟩ := readingBack?_spec found
      refine ⟨d, rfl, reads, short.trans (Nat.pow_le_pow_right (by decide) ?_)⟩
      obtain ⟨i, within, rfl⟩ := List.mem_range'.mp tried
      omega

/-- **The shortest decimal of a double reads back as that double.** -/
theorem bits_shortest (some : bits ≠ 0) (finite : bits < infinityBits) :
    (shortest bits).bits = bits := by
  obtain ⟨d, found, reads, -⟩ := exists_found some finite
  rw [found, bits_congr (toRat_dropZeros 20 d), reads]

/-- The shortest decimal does not end with a zero. -/
theorem shortest_mod (some : bits ≠ 0) (finite : bits < infinityBits) :
    (shortest bits).digits % 10 ≠ 0 := by
  obtain ⟨d, found, reads, short⟩ := exists_found some finite
  rw [found]
  refine dropZeros_mod (fun none => some ?_) (short.trans_lt (by decide))
  rw [← reads, bits_of_zero none]

/-- A double with a fractional part has one in its shortest decimal. -/
theorem shortest_exponent (finite : bits < infinityBits) (fractional : ¬ (dyadicOfBits bits).IsWhole) :
    (shortest bits).exponent < 0 := by
  have some : bits ≠ 0 := by
    rintro rfl
    exact fractional isWhole_zero
  by_contra natural
  apply fractional
  have reads := bits_shortest some finite
  rw [Decimal.bits, ratio, if_pos (not_lt.mp natural)] at reads
  rw [← reads]
  exact isWhole_bitsOfRatio (reads.trans_lt finite)

end Decimal

end TernLang.Number
