import TernLang.Proofs.Number.Numerals

/-! # Whole numbers

A finite double has a value (`toRat?`). A double is used as an integer if its value is
one, and then as that integer (`toInt?_eq_some_iff`): both zeros are 0, and no infinity,
no NaN and nothing with a fractional part is an integer. Natural numbers of up to 53 bits
are doubles (`toRat?_ofNat`), and no natural number is rounded to a negative double.
-/

namespace TernLang.Number

open Float.Model

/-- The value of the parts of a double, if they are those of a finite one. -/
def valueOfParts : UnpackedFloat → Option ℚ
  | .zero _ => some 0
  | .finite .positive m e _ => some (m * 2 ^ e)
  | .finite .negative m e _ => some (-(m * 2 ^ e))
  | .infinity _ => none
  | .notANumber => none

/-- The value of a double, if it is finite. -/
def toRat? (x : Float) : Option ℚ :=
  valueOfParts x.toModel.unpack

def withSign (negative : Bool) (q : ℚ) : ℚ :=
  if negative then -q else q

section Values

variable {x : Float} {bits : Nat}

/-- The value of the parts of a finite number is its magnitude with its sign. -/
theorem valueOfParts_partsOf (negative : Bool) (finite : bits < infinityBits) :
    valueOfParts (partsOf negative bits) =
      some (withSign negative (dyadicOfBits bits).toRat) := by
  rw [Dyadic.toRat]
  rcases partsOf_cases negative bits with ⟨infinite, -⟩ | ⟨-, _, parts⟩ | ⟨-, zero, parts⟩
  · exact absurd infinite (Nat.ne_of_lt finite)
  · rw [parts]
    cases negative <;> rfl
  · rw [parts, zero, Nat.cast_zero, zero_mul]
    cases negative with
    | false => rfl
    | true => exact congrArg some neg_zero.symm

/-- **The value of a double** is its magnitude with its sign; infinities and NaNs have none. -/
theorem toRat?_eq (x : Float) :
    toRat? x = if magnitudeBits x < infinityBits then
      some (withSign (isNegative x) (magnitude x).toRat) else none := by
  unfold toRat?
  rcases Nat.lt_or_ge infinityBits (magnitudeBits x) with nan | number
  · rw [if_neg (Nat.not_lt_of_lt nan)]
    have isNaN : x.toModel.unpack.isNaN = true := by
      rw [← Bool.not_eq_false]
      exact fun number => absurd (isNaN_eq_false_iff.mp number) (Nat.not_le_of_lt nan)
    generalize x.toModel.unpack = parts at isNaN
    cases parts with
    | notANumber => rfl
    | zero | infinity | finite => cases isNaN
  · rw [unpack_eq number]
    split
    · rename_i finite
      exact valueOfParts_partsOf _ finite
    · rename_i infinite
      rw [Nat.le_antisymm number (Nat.le_of_not_lt infinite), partsOf_infinity]
      rfl

end Values

/-! ## Integers -/

section Integers

variable {x : Float} {d : Dyadic} {z : ℤ}

theorem Dyadic.toRat_nonneg (d : Dyadic) : 0 ≤ d.toRat :=
  mul_nonneg (Nat.cast_nonneg _) (two_zpow_pos _).le

/-- A magnitude is whole if its value is a natural number. -/
theorem Dyadic.isWhole_of_toRat {n : Nat} (value : d.toRat = n) : d.IsWhole := by
  by_cases natural : 0 ≤ d.exponent
  · exact .inl natural
  · right
    rw [toRat, zpow_of_neg 2 natural, ← div_eq_mul_inv, div_eq_iff (by positivity)] at value
    have product : d.mantissa = n * 2 ^ (-d.exponent).toNat := by exact_mod_cast value
    rw [product, Nat.mul_mod_left]

/-- A signed magnitude is an integer exactly when the magnitude is a natural number. -/
theorem withSign_eq_intCast_iff (negative : Bool) {q : ℚ} (nonneg : 0 ≤ q) :
    withSign negative q = z ↔ ∃ n : Nat, q = n ∧ z = if negative then -(n : ℤ) else n := by
  unfold withSign
  cases negative with
  | true =>
      simp only [if_true]
      constructor
      · intro value
        have natural : z.natAbs = -z := by
          have : (z : ℚ) ≤ 0 := by linarith
          have : z ≤ 0 := by exact_mod_cast this
          omega
        refine ⟨z.natAbs, ?_, by omega⟩
        rw [neg_eq_iff_eq_neg.mp value, ← Int.cast_neg, ← natural, Int.cast_natCast]
      · rintro ⟨n, rfl, rfl⟩
        push_cast
        rfl
  | false =>
      simp only [Bool.false_eq_true, if_false]
      constructor
      · intro value
        have natural : 0 ≤ z := by
          have : (0 : ℚ) ≤ z := value ▸ nonneg
          exact_mod_cast this
        exact ⟨z.toNat, by rw [value, ← Int.cast_natCast, Int.toNat_of_nonneg natural], by omega⟩
      · rintro ⟨n, rfl, rfl⟩
        push_cast
        rfl

/-- The whole number of a whole magnitude has its value. -/
theorem cast_wholeMagnitude (whole : (magnitude x).IsWhole) :
    (wholeMagnitude x : ℚ) = (magnitude x).toRat := by
  rw [← toRat_wholeMagnitude whole, Decimal.toRat, zpow_zero, mul_one]

/-- **A double is used as an integer if its value is that integer.** -/
theorem toInt?_eq_some_iff : toInt? x = some z ↔ toRat? x = some (z : ℚ) := by
  rw [toInt?, toRat?_eq]
  by_cases finite : magnitudeBits x < infinityBits
  · have isFinite : Number.isFinite x = true := decide_eq_true finite
    rw [if_pos finite, Option.some_inj, withSign_eq_intCast_iff _ (Dyadic.toRat_nonneg _)]
    by_cases whole : (magnitude x).IsWhole
    · have value := cast_wholeMagnitude whole
      rw [if_pos ((TernLang.isWhole_iff isFinite).mpr whole), Option.some_inj, ← value]
      constructor
      · rintro rfl
        exact ⟨wholeMagnitude x, rfl, rfl⟩
      · rintro ⟨n, same, rfl⟩
        rw [← Nat.cast_injective same]
        rfl
    · rw [if_neg (mt (TernLang.isWhole_iff isFinite).mp whole)]
      refine iff_of_false (Option.some_ne_none _).symm ?_
      rintro ⟨n, value, -⟩
      exact whole (Dyadic.isWhole_of_toRat value)
  · have infinite : isWhole x = false := by
      rw [isWhole, Number.isFinite, decide_eq_false finite, Bool.false_and]
    rw [if_neg finite, infinite, if_neg Bool.false_ne_true]
    exact iff_of_false (Option.some_ne_none _).symm (Option.some_ne_none _).symm

end Integers

/-! ## Natural numbers as doubles -/

section Naturals

variable {n : Nat} {q : ℚ}

/-- No ratio rounds to bits beyond infinity. -/
theorem bitsOfRatio_le (num den : Nat) : bitsOfRatio num den ≤ infinityBits := by
  unfold bitsOfRatio
  split
  · exact Nat.zero_le _
  · exact min_le_left _ _

theorem toRat?_ofNat_eq (n : Nat) :
    toRat? (ofNat n) = if bitsOfRatio n 1 < infinityBits then
      some (dyadicOfBits (bitsOfRatio n 1)).toRat else none := by
  have number := bitsOfRatio_le n 1
  rw [toRat?, ofNat, unpack_ofMagnitudeBits false number]
  split
  · rename_i finite
    exact valueOfParts_partsOf false finite
  · rename_i infinite
    rw [Nat.le_antisymm number (Nat.le_of_not_lt infinite), partsOf_infinity]
    rfl

/-- A natural number is not rounded to a negative double. -/
theorem toRat?_ofNat_nonneg (value : toRat? (ofNat n) = some q) : 0 ≤ q := by
  rw [toRat?_ofNat_eq] at value
  split at value
  · exact Option.some.inj value ▸ Dyadic.toRat_nonneg _
  · cases value

/-- A natural number of at most 53 bits is the value of magnitude bits. -/
theorem exists_bits (some : n ≠ 0) (short : n < 2 ^ 53) :
    ∃ bits < infinityBits, (dyadicOfBits bits).toRat = n := by
  have exponent := isExponent_exponentOfRatio some one_pos
  rw [Nat.cast_one, div_one] at exponent
  generalize exponentOfRatio n 1 = e at exponent
  have smallest : minExponent = -1074 := rfl
  have least := exponent.least
  have small : e ≤ 0 := by
    by_contra large
    have bound := exponent.below (by omega)
    have : (n : ℚ) < 2 ^ (53 : ℤ) := by exact_mod_cast short
    have := (zpow_lt_zpow_iff_right₀ one_lt_two).mp (bound.trans_lt this)
    omega
  obtain ⟨scaled, width, normal⟩ := exponent.mantissa small
  generalize n * 2 ^ (-e).toNat = m at *
  refine ⟨((e + 1074) * 2 ^ 52 + m).toNat, ?_, ?_⟩
  · rw [infinityBits_eq]
    omega
  · rw [dyadicOfBits_eq (d := ⟨m, e⟩) least width normal (by dsimp only; omega), Dyadic.toRat,
      scaled, div_mul_cancel₀ _ (two_zpow_pos e).ne']

/-- **A natural number of at most 53 bits is a double.** -/
theorem toRat?_ofNat (short : n < 2 ^ 53) : toRat? (ofNat n) = some (n : ℚ) := by
  rw [toRat?_ofNat_eq]
  by_cases some : n = 0
  · subst some
    have zero : bitsOfRatio 0 1 = 0 := if_pos rfl
    rw [zero, if_pos (by decide), dyadicOfBits_subnormal (Nat.two_pow_pos 52), Dyadic.toRat]
    simp
  · obtain ⟨bits, finite, value⟩ := exists_bits some short
    have gap := two_zpow_pos ((dyadicOfBits bits).exponent - 1)
    have gap' := two_zpow_pos ((dyadicOfBits bits).exponent - 2)
    have exact : bitsOfRatio n 1 = bits := by
      refine bitsOfRatio_of_near some one_pos finite ?_ ?_ fun _ => ?_ <;>
        rw [value, Nat.cast_one, div_one] <;> linarith
    rw [exact, if_pos finite, value]

/-- The number that stands for an absent position. -/
theorem toRat?_neg_one : toRat? (-1) = some (-1) := by
  have value : toInt? (-1) = some (-1) := by decide +kernel
  simpa using toInt?_eq_some_iff.mp value

end Naturals

end TernLang.Number
