import TernLang.Number.Text
import TernLang.Proofs.Number.Shortest
import TernLang.Proofs.Token.Lexemes

/-! # Numerals

A finite number is printed as a numeral, `-?(0|[1-9][0-9]*)(\.[0-9]*[1-9])?`, and the
digits of the numeral read back as the number (`displayChars_eq_numeral`). A whole number
is written in full. Any other is written with the digits of its shortest decimal; that one
has a negative exponent, so the point stands in front of its last digit, which is no zero.
Equal numbers are printed alike, also the two zeros (`display_congr`).
-/

namespace TernLang

open Number Number.Decimal

/-- A numeral in its parts: `-?`, then `0` or digits that do not start with a zero, then
nothing or a point and digits that do not end with a zero. -/
structure Numeral where
  negative : Bool
  whole : List Char
  fraction : List Char
  some : whole ≠ []
  digits : whole.all Char.isDigit = true
  noZeroInFront : whole.head? = Option.some '0' → whole = ['0']
  digits' : fraction.all Char.isDigit = true
  noZeroBehind : fraction.getLast? ≠ Option.some '0'

namespace Numeral

/-- How a numeral is written. -/
def chars (numeral : Numeral) : List Char :=
  signText numeral.negative ++ (numeral.whole ++ pointed numeral.fraction)

/-- The magnitude bits that the digits of a numeral read as. -/
def bits (numeral : Numeral) : Nat :=
  (ofDigits numeral.whole numeral.fraction).bits

end Numeral

/-! ## Digits of natural numbers -/

section Digits

variable {n : Nat}

theorem all_isDigit_digitChars (n : Nat) : (digitChars n).all Char.isDigit = true :=
  List.all_eq_true.mpr fun _ mem => Nat.isDigit_of_mem_toDigits (by decide) (by decide) mem

theorem digitChars_ne_nil (n : Nat) : digitChars n ≠ [] :=
  Nat.toDigits_ne_nil

/-- Reading the digits of a natural number gives the number back. -/
theorem natOfDigits_digitChars (n : Nat) : natOfDigits (digitChars n) = n :=
  Nat.ofDigitChars_toDigits (by decide) (by decide)

theorem digitChars_of_ten_le (large : 10 ≤ n) :
    digitChars n = digitChars (n / 10) ++ [(n % 10).digitChar] :=
  Nat.toDigits_of_base_le (by decide) large

/-- Only zero is written with a zero in front. -/
theorem eq_zero_of_head_digitChars (front : (digitChars n).head? = some '0') : n = 0 := by
  induction n using Nat.strongRecOn with
  | ind n ih =>
      rcases Nat.lt_or_ge n 10 with small | large
      · rw [digitChars, Nat.toDigits_of_lt_base small] at front
        exact Nat.digitChar_eq_zero.mp (Option.some.inj front)
      · rw [digitChars_of_ten_le large, List.head?_append_of_ne_nil _ (digitChars_ne_nil _)] at front
        have := ih (n / 10) (by omega) front
        omega

/-- The last digit is the one that counts. -/
theorem getLast_digitChars (n : Nat) : (digitChars n).getLast? = some (n % 10).digitChar := by
  rcases Nat.lt_or_ge n 10 with small | large
  · rw [digitChars, Nat.toDigits_of_lt_base small, Nat.mod_eq_of_lt small]
    rfl
  · rw [digitChars_of_ten_le large, List.getLast?_concat]

/-- Leading zeros do not count. -/
theorem natOfDigits_zeros (k : Nat) (cs : List Char) :
    natOfDigits (List.replicate k '0' ++ cs) = natOfDigits cs := by
  induction k with
  | zero => rfl
  | succ k ih => exact ih

end Digits

/-! ## Printed numbers -/

section Printed

variable {x : Float} {d : Decimal}

def Numeral.ofNat (negative : Bool) (n : Nat) : Numeral where
  negative := negative
  whole := digitChars n
  fraction := []
  some := digitChars_ne_nil n
  digits := all_isDigit_digitChars n
  noZeroInFront front := by rw [eq_zero_of_head_digitChars front]; rfl
  digits' := rfl
  noZeroBehind := nofun

theorem pointed_of_ne_nil {fraction : List Char} (some : fraction ≠ []) :
    pointed fraction = '.' :: fraction := by
  cases fraction with
  | nil => exact absurd rfl some
  | cons digit rest => rfl

/-- Digits without a zero in front or behind. -/
structure IsSignificant (ds : List Char) : Prop where
  some : ds ≠ []
  digits : ds.all Char.isDigit = true
  front : ds.head? ≠ Option.some '0'
  behind : ds.getLast? ≠ Option.some '0'

/-- The digits of a number that does not end in zero are significant. -/
theorem isSignificant_digitChars {n : Nat} (last : n % 10 ≠ 0) : IsSignificant (digitChars n) where
  some := digitChars_ne_nil n
  digits := all_isDigit_digitChars n
  front zero := last (by rw [eq_zero_of_head_digitChars zero])
  behind := by
    rw [getLast_digitChars]
    exact fun zero => last (Nat.digitChar_eq_zero.mp (Option.some.inj zero))

/-- A point between significant digits. -/
theorem exists_numeral_of_point_inside (negative : Bool) {ds : List Char} {k : Nat}
    (significant : IsSignificant ds) (pos : 0 < k) (short : k < ds.length) :
    ∃ numeral : Numeral, numeral.negative = negative ∧
      numeral.chars = signText negative ++ placePoint ds k ∧
      ofDigits numeral.whole numeral.fraction = ⟨natOfDigits ds, k - ds.length⟩ := by
  obtain ⟨some, digits, front, behind⟩ := significant
  have rest : ds.drop k ≠ [] := by
    rw [Ne, List.drop_eq_nil_iff]
    omega
  refine ⟨⟨negative, ds.take k, ds.drop k, ?_, ?_, ?_, ?_, ?_⟩, rfl, ?_, ?_⟩
  · rw [Ne, List.take_eq_nil_iff]
    rintro (none | none)
    · omega
    · exact some none
  · exact List.all_eq_true.mpr fun c mem => List.all_eq_true.mp digits c (List.mem_of_mem_take mem)
  · intro zero
    rw [List.head?_take, if_neg (by omega)] at zero
    exact absurd zero front
  · exact List.all_eq_true.mpr fun c mem => List.all_eq_true.mp digits c (List.mem_of_mem_drop mem)
  · rw [List.getLast?_drop, if_neg (by omega)]
    exact behind
  · show signText negative ++ (ds.take k ++ pointed (ds.drop k)) = _
    rw [pointed_of_ne_nil rest, placePoint, if_neg (by omega), if_neg (by omega), Int.toNat_natCast]
  · rw [ofDigits, List.take_append_drop, List.length_drop]
    congr 1
    omega

/-- A point and zeros in front of significant digits. -/
theorem exists_numeral_of_point_before (negative : Bool) {ds : List Char} (k : Nat)
    (significant : IsSignificant ds) : ∃ numeral : Numeral, numeral.negative = negative ∧
      numeral.chars = signText negative ++ placePoint ds (-k) ∧
      ofDigits numeral.whole numeral.fraction = ⟨natOfDigits ds, -k - ds.length⟩ := by
  obtain ⟨some, digits, -, behind⟩ := significant
  have more : List.replicate k '0' ++ ds ≠ [] := List.append_ne_nil_of_right_ne_nil _ some
  refine ⟨⟨negative, ['0'], List.replicate k '0' ++ ds, by simp, rfl, fun _ => rfl, ?_, ?_⟩, rfl,
    ?_, ?_⟩
  · rw [List.all_append, digits, Bool.and_true]
    exact List.all_eq_true.mpr fun c mem => by rw [List.eq_of_mem_replicate mem]; rfl
  · rw [List.getLast?_append_of_ne_nil _ some]
    exact behind
  · show signText negative ++ (['0'] ++ pointed (List.replicate k '0' ++ ds)) = _
    rw [pointed_of_ne_nil more, placePoint, if_pos (by omega), neg_neg, Int.toNat_natCast]
    rfl
  · rw [ofDigits, List.singleton_append, ← List.cons_append, ← List.replicate_succ,
      natOfDigits_zeros, List.length_append, List.length_replicate]
    congr 1
    omega

/-- A decimal with a negative exponent whose last digit is no zero is written as a numeral,
and the digits of the numeral are those of the decimal. -/
theorem exists_numeral_of_decimal (negative : Bool) (last : d.digits % 10 ≠ 0)
    (fractional : d.exponent < 0) : ∃ numeral : Numeral, numeral.negative = negative ∧
      numeral.chars = signText negative ++ placePoint (digitChars d.digits) d.pointPosition ∧
      ofDigits numeral.whole numeral.fraction = d := by
  have significant := isSignificant_digitChars last
  have point : d.pointPosition = (digitChars d.digits).length + d.exponent := rfl
  have parts : (⟨natOfDigits (digitChars d.digits),
      d.pointPosition - (digitChars d.digits).length⟩ : Decimal) = d := by
    rw [natOfDigits_digitChars, point, add_sub_cancel_left]
  rcases lt_or_ge 0 d.pointPosition with inside | before
  · obtain ⟨k, position⟩ : ∃ k : Nat, d.pointPosition = k := ⟨d.pointPosition.toNat, by omega⟩
    rw [position] at parts ⊢
    obtain ⟨numeral, sign, chars, value⟩ :=
      exists_numeral_of_point_inside negative significant (k := k) (by omega) (by omega)
    exact ⟨numeral, sign, chars, value.trans parts⟩
  · obtain ⟨k, position⟩ : ∃ k : Nat, d.pointPosition = -k := ⟨(-d.pointPosition).toNat, by omega⟩
    rw [position] at parts ⊢
    obtain ⟨numeral, sign, chars, value⟩ := exists_numeral_of_point_before negative k significant
    exact ⟨numeral, sign, chars, value.trans parts⟩

/-- A finite number is whole exactly when its magnitude is an integer. -/
theorem isWhole_iff (finite : Number.isFinite x = true) :
    isWhole x = true ↔ (magnitude x).IsWhole := by
  unfold isWhole Number.Dyadic.IsWhole
  simp only [finite, Bool.true_and, Bool.or_eq_true, decide_eq_true_eq, beq_iff_eq, Nat.pow_eq]

theorem isWhole_of_zero (zero : magnitudeBits x = 0) : (magnitude x).IsWhole := by
  rw [magnitude, zero]
  exact isWhole_zero

/-- The value of a whole number. -/
theorem toRat_wholeMagnitude (whole : (magnitude x).IsWhole) :
    Decimal.toRat ⟨wholeMagnitude x, 0⟩ = (magnitude x).toRat := by
  unfold wholeMagnitude Decimal.toRat Number.Dyadic.toRat
  dsimp only
  rw [zpow_zero, mul_one]
  split
  · rename_i natural
    rw [zpow_of_nonneg 2 natural, Nat.pow_eq]
    push_cast
    rfl
  · rename_i negative
    obtain ⟨q, product⟩ := Nat.dvd_of_mod_eq_zero (whole.resolve_left negative)
    rw [zpow_of_neg 2 negative, Nat.pow_eq, product, Nat.mul_div_cancel_left _ (Nat.two_pow_pos _)]
    push_cast
    field_simp

/-- The numeral of a whole number reads as that number. -/
theorem bits_wholeMagnitude (finite : Number.isFinite x = true) (whole : (magnitude x).IsWhole) :
    Decimal.bits ⟨wholeMagnitude x, 0⟩ = magnitudeBits x :=
  bits_of_toRat_eq (of_decide_eq_true finite) (toRat_wholeMagnitude whole)

/-- The whole number of a magnitude is zero for the zeros alone. -/
theorem wholeMagnitude_eq_zero_iff (finite : Number.isFinite x = true)
    (whole : (magnitude x).IsWhole) : wholeMagnitude x = 0 ↔ magnitudeBits x = 0 := by
  constructor
  · intro zero
    rw [← bits_wholeMagnitude finite whole, zero]
    exact bits_of_zero rfl
  · intro zero
    have value := toRat_wholeMagnitude whole
    rw [magnitude, zero, dyadicOfBits_subnormal (Nat.two_pow_pos 52), Decimal.toRat,
      Number.Dyadic.toRat] at value
    simpa using value

/-- Both zeros are printed alike. -/
theorem displayChars_of_zero (zero : magnitudeBits x = 0) : displayChars x = ['0'] := by
  have finite : Number.isFinite x = true := by
    rw [Number.isFinite, zero]
    decide
  have whole := isWhole_of_zero zero
  have value : wholeValue x = 0 := by
    rw [wholeValue, (wholeMagnitude_eq_zero_iff finite whole).mpr zero]
    split <;> rfl
  rw [displayChars, finite, (isWhole_iff finite).mpr whole, value]
  rfl

/-- **Equal doubles have one text**, also the two zeros. -/
theorem display_congr {y : Float} (equal : (x == y) = true) : display x = display y := by
  have number := isNaN_eq_false_iff.mp ((beq_iff x y).mp equal).1
  have number' := isNaN_eq_false_iff.mp ((beq_iff y x).mp (beq_symm equal)).1
  obtain ⟨bits, sign⟩ := (beq_iff_bits number number').mp equal
  rcases sign with sign | zero
  · rw [eq_of_bits sign bits]
  · rw [display, display, displayChars_of_zero zero, displayChars_of_zero (bits.symm.trans zero)]

/-- **A finite number is printed as a numeral**, with the sign of the number unless that is
zero, and the digits read as the magnitude of the number. -/
theorem displayChars_eq_numeral (finite : Number.isFinite x = true) : ∃ numeral : Numeral,
    displayChars x = numeral.chars ∧ numeral.bits = magnitudeBits x ∧
      numeral.negative = (isNegative x && magnitudeBits x != 0) := by
  rw [displayChars, finite, Bool.not_true, if_neg Bool.false_ne_true]
  by_cases whole : (magnitude x).IsWhole
  · rw [if_pos ((isWhole_iff finite).mpr whole)]
    have size : (wholeValue x).natAbs = wholeMagnitude x := by
      unfold wholeValue
      split <;> omega
    refine ⟨.ofNat (decide (wholeValue x < 0)) (wholeMagnitude x), ?_, ?_, ?_⟩
    · rw [wholeText, size]
      show _ = signText (decide (wholeValue x < 0)) ++ (digitChars (wholeMagnitude x) ++ [])
      rw [List.append_nil]
    · rw [← bits_wholeMagnitude finite whole, Numeral.bits, Numeral.ofNat, ofDigits,
        List.append_nil, natOfDigits_digitChars]
      rfl
    · -- a zero is shown without its sign
      have zero := wholeMagnitude_eq_zero_iff finite whole
      show decide (wholeValue x < 0) = _
      unfold wholeValue
      cases isNegative x with
      | true =>
          rw [Bool.true_and, if_pos rfl, Bool.eq_iff_iff, decide_eq_true_eq, bne_iff_ne, Ne, ← zero]
          omega
      | false =>
          rw [Bool.false_and, if_neg Bool.false_ne_true, decide_eq_false]
          omega
  · rw [if_neg (mt (isWhole_iff finite).mp whole)]
    -- any other number is shown by its shortest decimal
    have bits := of_decide_eq_true finite
    have some : magnitudeBits x ≠ 0 := fun zero => whole (isWhole_of_zero zero)
    obtain ⟨numeral, sign, chars, value⟩ := exists_numeral_of_decimal (isNegative x)
      (shortest_mod some bits) (shortest_exponent bits whole)
    refine ⟨numeral, chars.symm, ?_, ?_⟩
    · rw [Numeral.bits, value, bits_shortest some bits]
    · rw [sign, bne_iff_ne.mpr some, Bool.and_true]

end Printed

end TernLang
