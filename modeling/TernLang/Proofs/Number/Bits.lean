import Mathlib.Tactic.Ring
import TernLang.Number.Binary
import TernLang.Proofs.Number.Equality

/-! # Doubles and their bits

A double that is no NaN is given by its sign and its magnitude bits: **its parts are those
of the sign and the magnitude that the bits stand for** (`unpack_eq`), and each sign and
each magnitude are those of a double (`unpack_ofMagnitudeBits`). So two doubles are equal
exactly if they have the same magnitude and, unless that is zero, the same sign
(`beq_iff_bits`).
-/

namespace TernLang.Number

open Float.Model Float.Model.UnpackedFloat

/-! ## The fields of a word -/

section Fields

variable (word : BitVec Format.binary64.numBits)

theorem toNat_unpackMantissa : (unpackMantissa word).toNat = word.toNat % 2 ^ 52 := by
  simp [unpackMantissa]

theorem toNat_unpackExponent :
    (unpackExponent word).toNat = word.toNat / 2 ^ 52 % 2 ^ 11 := by
  simp [unpackExponent, Nat.shiftRight_eq_div_pow]

theorem toNat_unpackSign : (unpackSign word).toNat = word.toNat / 2 ^ 63 % 2 := by
  unfold unpackSign
  simp [Nat.shiftRight_eq_div_pow]

/-- A packed word is its three fields, each shifted to its place. -/
theorem toNat_packComponents (sign : Sign) (exponent : BitVec 11) (mantissa : BitVec 52) :
    (packComponents Format.binary64 sign exponent mantissa).toNat =
      sign.toBitVec.toNat * 2 ^ 63 + exponent.toNat * 2 ^ 52 + mantissa.toNat := by
  rw [packComponents, BitVec.toNat_append, BitVec.toNat_append,
    ← Nat.shiftLeft_add_eq_or_of_lt exponent.isLt, ← Nat.shiftLeft_add_eq_or_of_lt mantissa.isLt,
    Nat.shiftLeft_eq, Nat.shiftLeft_eq]
  ring

/-- The leading bit of a normal mantissa is not stored. -/
theorem toNat_one_append (mantissa : BitVec 52) :
    (1#1 ++ mantissa).toNat = 2 ^ 52 + mantissa.toNat := by
  rw [BitVec.toNat_append, ← Nat.shiftLeft_add_eq_or_of_lt mantissa.isLt, Nat.shiftLeft_eq]
  rfl

end Fields

/-! ## Parts -/

/-- The sign as a part of a double. -/
def signOf : (negative : Bool) → Sign
  | true => .negative
  | false => .positive

/-- The parts of the double with a sign and magnitude bits that are at most those of
infinity. -/
def partsOf (negative : Bool) (bits : Nat) : UnpackedFloat :=
  if bits = infinityBits then .infinity (signOf negative)
  else if some : 0 < (dyadicOfBits bits).mantissa then
    .finite (signOf negative) (dyadicOfBits bits).mantissa (dyadicOfBits bits).exponent some
  else .zero (signOf negative)

theorem infinityBits_eq : infinityBits = 2047 * 2 ^ 52 := rfl

/-- Below the first power of two with a hidden bit the magnitude is the mantissa alone. -/
theorem dyadicOfBits_subnormal {bits : Nat} (small : bits < 2 ^ 52) :
    dyadicOfBits bits = ⟨bits, -1074⟩ := by
  simp only [dyadicOfBits, Nat.pow_eq]
  rw [Nat.div_eq_of_lt small, Nat.mod_eq_of_lt small]
  rfl

/-- Above it the hidden bit is added and the exponent read off the upper bits. -/
theorem dyadicOfBits_normal {bits : Nat} (large : 2 ^ 52 ≤ bits) :
    dyadicOfBits bits = ⟨2 ^ 52 + bits % 2 ^ 52, -1075 + (bits / 2 ^ 52 : Nat)⟩ := by
  obtain ⟨biased, same⟩ : ∃ biased, bits / 2 ^ 52 = biased + 1 :=
    Nat.exists_eq_add_of_le' (by omega)
  simp only [dyadicOfBits, Nat.pow_eq, same, minExponent]
  congr 1
  omega

theorem finite_congr {sign sign' : Sign} {m m' : Nat} {e e' : Int} {some : 0 < m} {some' : 0 < m'}
    (signs : sign = sign') (mantissas : m = m') (exponents : e = e') :
    UnpackedFloat.finite sign m e some = .finite sign' m' e' some' := by
  subst signs mantissas exponents
  rfl

theorem partsOf_infinity (negative : Bool) :
    partsOf negative infinityBits = .infinity (signOf negative) :=
  if_pos rfl

theorem partsOf_zero (negative : Bool) : partsOf negative 0 = .zero (signOf negative) := by
  rw [partsOf, if_neg (by decide), dif_neg (by decide)]

/-- The parts of a number without a hidden bit. -/
theorem partsOf_subnormal (negative : Bool) {bits : Nat} (some : 0 < bits) (small : bits < 2 ^ 52) :
    partsOf negative bits = .finite (signOf negative) bits (-1074) some := by
  have parts := dyadicOfBits_subnormal small
  have finite : bits ≠ infinityBits := by
    rw [infinityBits_eq]
    omega
  rw [partsOf, if_neg finite, dif_pos (by rwa [parts])]
  exact finite_congr rfl (by rw [parts]) (by rw [parts])

/-- The parts of a number with a hidden bit. -/
theorem partsOf_normal (negative : Bool) {bits : Nat} (large : 2 ^ 52 ≤ bits)
    (finite : bits < infinityBits) :
    partsOf negative bits = .finite (signOf negative) (2 ^ 52 + bits % 2 ^ 52)
      (-1075 + (bits / 2 ^ 52 : Nat)) (Nat.add_pos_left (Nat.two_pow_pos 52) _) := by
  have parts := dyadicOfBits_normal large
  have some : 0 < (dyadicOfBits bits).mantissa := by
    rw [parts]
    exact Nat.add_pos_left (Nat.two_pow_pos 52) _
  rw [partsOf, if_neg (Nat.ne_of_lt finite), dif_pos some]
  exact finite_congr rfl (by rw [parts]) (by rw [parts])

/-- The parts are those of an infinity, of a magnitude other than zero, or of a zero. -/
theorem partsOf_cases (negative : Bool) (bits : Nat) :
    (bits = infinityBits ∧ partsOf negative bits = .infinity (signOf negative)) ∨
      (bits ≠ infinityBits ∧ ∃ some, partsOf negative bits =
        .finite (signOf negative) (dyadicOfBits bits).mantissa (dyadicOfBits bits).exponent some) ∨
      (bits ≠ infinityBits ∧ (dyadicOfBits bits).mantissa = 0 ∧
        partsOf negative bits = .zero (signOf negative)) := by
  by_cases infinite : bits = infinityBits
  · exact .inl ⟨infinite, if_pos infinite⟩
  · refine .inr ?_
    rw [partsOf, if_neg infinite]
    by_cases some : 0 < (dyadicOfBits bits).mantissa
    · exact .inl ⟨infinite, some, dif_pos some⟩
    · exact .inr ⟨infinite, Nat.eq_zero_of_not_pos some, dif_neg some⟩

/-- Magnitude bits stand for zero, for a subnormal or normal magnitude, or for infinity. -/
theorem bits_cases {bits : Nat} (number : bits ≤ infinityBits) :
    bits = 0 ∨ (0 < bits ∧ bits < 2 ^ 52) ∨ (2 ^ 52 ≤ bits ∧ bits < infinityBits) ∨
      bits = infinityBits := by
  rw [infinityBits_eq] at number ⊢
  omega

/-! ## Unpacking -/

section Unpack

variable {word : BitVec Format.binary64.numBits}

theorem ofBitVec_unpackSign (word : BitVec Format.binary64.numBits) :
    Sign.ofBitVec (unpackSign word) = signOf (decide (2 ^ 63 ≤ word.toNat)) := by
  have size : word.toNat < 2 ^ 64 := word.isLt
  have sign := toNat_unpackSign word
  by_cases negative : 2 ^ 63 ≤ word.toNat
  · rw [decide_eq_true negative, Sign.ofBitVec, if_neg fun zero => ?_]
    · rfl
    · rw [zero] at sign
      have : (0#1).toNat = 0 := rfl
      omega
  · rw [decide_eq_false negative, Sign.ofBitVec, if_pos (BitVec.eq_of_toNat_eq ?_)]
    · rfl
    · rw [sign]
      show _ = 0
      omega

theorem unpackExponent_eq_iff {e : BitVec 11} :
    unpackExponent word = e ↔ word.toNat / 2 ^ 52 % 2 ^ 11 = e.toNat := by
  rw [← BitVec.toNat_inj, toNat_unpackExponent]

theorem unpackMantissa_eq_iff {m : BitVec 52} :
    unpackMantissa word = m ↔ word.toNat % 2 ^ 52 = m.toNat := by
  rw [← BitVec.toNat_inj, toNat_unpackMantissa]

/-- **The parts of a word** are those of its sign and its magnitude bits. -/
theorem unpack_eq_partsOf (number : word.toNat % 2 ^ 63 ≤ infinityBits) :
    unpack Format.binary64 word =
      partsOf (decide (2 ^ 63 ≤ word.toNat)) (word.toNat % 2 ^ 63) := by
  have largest : (-1#11).toNat = 2047 := rfl
  have smallest : (0#11).toNat = 0 := rfl
  have none : (0#52).toNat = 0 := rfl
  have bias : (Format.binary64.exponentBias : Int) + Format.binary64.mantissaBitsWithoutImplicit =
      1075 := rfl
  unfold UnpackedFloat.unpack
  dsimp only
  rw [ofBitVec_unpackSign]
  generalize same : word.toNat % 2 ^ 63 = bits at number ⊢
  rcases bits_cases number with rfl | ⟨some, small⟩ | ⟨large, finite⟩ | rfl
  · rw [if_neg (by rw [unpackExponent_eq_iff]; omega), if_pos (by rw [unpackExponent_eq_iff]; omega),
      dif_pos (by rw [unpackMantissa_eq_iff]; omega), partsOf_zero]
  · rw [if_neg (by rw [unpackExponent_eq_iff]; omega), if_pos (by rw [unpackExponent_eq_iff]; omega),
      dif_neg (by rw [unpackMantissa_eq_iff]; omega), partsOf_subnormal _ some small]
    refine finite_congr rfl ?_ ?_
    · rw [toNat_unpackMantissa]
      omega
    · rw [toNat_unpackExponent, bias]
      omega
  · rw [infinityBits_eq] at finite
    rw [if_neg (by rw [unpackExponent_eq_iff]; omega), if_neg (by rw [unpackExponent_eq_iff]; omega),
      partsOf_normal _ large finite]
    refine finite_congr rfl ?_ ?_
    · rw [toNat_one_append, toNat_unpackMantissa]
      omega
    · rw [toNat_unpackExponent, bias]
      omega
  · rw [infinityBits_eq] at same
    rw [if_pos (by rw [unpackExponent_eq_iff]; omega), if_pos (by rw [unpackMantissa_eq_iff]; omega),
      partsOf_infinity]

end Unpack

/-! ## Packing -/

section Pack

theorem toNat_toBitVec_signOf (negative : Bool) :
    (signOf negative).toBitVec.toNat * 2 ^ 63 = if negative then 2 ^ 63 else 0 := by
  cases negative <;> rfl

/-- **The bits of the parts** of a sign and magnitude bits are these. -/
theorem toNat_pack_partsOf (negative : Bool) {bits : Nat} (number : bits ≤ infinityBits) :
    (UnpackedFloat.pack Format.binary64 (partsOf negative bits)).toNat =
      (if negative then 2 ^ 63 else 0) + bits := by
  have bias : (Format.binary64.exponentBias : Int) = 1023 := rfl
  have width : (Format.binary64.mantissaBitsWithoutImplicit : Int) = 52 := rfl
  rcases bits_cases number with rfl | ⟨some, small⟩ | ⟨large, finite⟩ | rfl
  · rw [partsOf_zero]
    unfold UnpackedFloat.pack
    rw [packedZero, toNat_packComponents, toNat_toBitVec_signOf]
    rfl
  · -- a subnormal number has no implicit bit
    have short : ¬ bits.log2 + 1 = Format.binary64.mantissaBits := by
      have := (Nat.log2_lt (by omega)).mpr small
      show ¬ bits.log2 + 1 = 53
      omega
    rw [partsOf_subnormal _ some small]
    unfold UnpackedFloat.pack
    dsimp only
    rw [if_neg (by decide), if_neg short, toNat_packComponents, toNat_toBitVec_signOf,
      BitVec.toNat_ofNat, BitVec.toNat_ofNat]
    omega
  · -- the leading bit of a normal number is the implicit one
    have long : (2 ^ 52 + bits % 2 ^ 52).log2 + 1 = Format.binary64.mantissaBits := by
      have upper := (Nat.log2_lt (n := 2 ^ 52 + bits % 2 ^ 52) (k := 53) (by omega)).mpr (by omega)
      have lower := (Nat.le_log2 (n := 2 ^ 52 + bits % 2 ^ 52) (k := 52) (by omega)).mpr (by omega)
      show _ = 53
      omega
    rw [infinityBits_eq] at finite
    have biased : (-1075 + ((bits / 2 ^ 52 : Nat) : Int) + Format.binary64.exponentBias +
        Format.binary64.mantissaBitsWithoutImplicit).toNat = bits / 2 ^ 52 := by
      rw [bias, width]
      omega
    rw [partsOf_normal _ large finite]
    unfold UnpackedFloat.pack
    dsimp only
    rw [biased, if_neg (by show ¬ 2048 ≤ _; omega), if_pos long, toNat_packComponents,
      toNat_toBitVec_signOf, BitVec.toNat_ofNat, BitVec.toNat_ofNat]
    omega
  · rw [partsOf_infinity]
    unfold UnpackedFloat.pack
    rw [packedInfinity, toNat_packComponents, toNat_toBitVec_signOf]
    rfl

end Pack

/-! ## Doubles -/

section Doubles

variable {x y : Float} {bits : Nat} {negative : Bool}

/-- The bits of a number are its sign and its magnitude. -/
theorem toNat_toBits (x : Float) :
    x.toBits.toNat = (if isNegative x then 2 ^ 63 else 0) + magnitudeBits x := by
  have size : x.toBits.toNat < 2 ^ 64 := x.toBits.toNat_lt
  unfold isNegative magnitudeBits
  simp only [Nat.pow_eq, decide_eq_true_eq]
  split <;> omega

/-- The sign and the magnitude bits are all of a double. -/
theorem eq_of_bits (signs : isNegative x = isNegative y)
    (magnitudes : magnitudeBits x = magnitudeBits y) : x = y := by
  have bits : x.toModel.toBits.toNat = y.toModel.toBits.toNat :=
    (toNat_toBits x).trans (signs ▸ magnitudes ▸ (toNat_toBits y).symm)
  cases x with
  | ofModel model =>
      cases y with
      | ofModel model' =>
          cases model
          cases model'
          cases UInt64.toNat_inj.mp bits
          rfl

/-- **The parts of a double** are those of its sign and its magnitude bits. -/
theorem unpack_eq (number : magnitudeBits x ≤ infinityBits) :
    x.toModel.unpack = partsOf (isNegative x) (magnitudeBits x) :=
  unpack_eq_partsOf number

/-- Unpacking a word that holds a sign and a magnitude gives the parts of these. -/
theorem unpack_of_toNat {word : BitVec Format.binary64.numBits} (number : bits ≤ infinityBits)
    (same : word.toNat = (if negative then 2 ^ 63 else 0) + bits) :
    UnpackedFloat.unpack Format.binary64 word = partsOf negative bits := by
  have small : bits < 2 ^ 63 := by
    rw [infinityBits_eq] at number
    omega
  have magnitude : word.toNat % 2 ^ 63 = bits := by
    rw [same]
    split <;> omega
  have sign : decide (2 ^ 63 ≤ word.toNat) = negative := by
    rw [same]
    cases negative with
    | true => exact decide_eq_true (Nat.le_add_right _ _)
    | false => exact decide_eq_false (by rw [if_neg Bool.false_ne_true]; omega)
  rw [unpack_eq_partsOf (by rwa [magnitude]), magnitude, sign]

/-- Packing and unpacking the parts of a number gives them back. -/
theorem unpack_pack_partsOf (negative : Bool) (number : bits ≤ infinityBits) :
    (Float.Model.pack (partsOf negative bits)).unpack = partsOf negative bits :=
  unpack_of_toNat number (toNat_pack_partsOf negative number)

/-- **Each sign and each magnitude** are those of a double. -/
theorem unpack_ofMagnitudeBits (negative : Bool) (number : bits ≤ infinityBits) :
    (ofMagnitudeBits negative bits).toModel.unpack = partsOf negative bits := by
  have size : (if negative then 2 ^ 63 else 0) + bits < 2 ^ 64 := by
    rw [infinityBits_eq] at number
    split <;> omega
  have word : (UInt64.ofNat (if negative then Nat.pow 2 63 + bits else bits)).toBitVec.toNat =
      (if negative then 2 ^ 63 else 0) + bits := by
    rw [UInt64.toNat_toBitVec, UInt64.toNat_ofNat', ← Nat.mod_eq_of_lt size]
    cases negative with
    | true => rfl
    | false => simp
  show (Float.Model.pack (UnpackedFloat.unpack Format.binary64 _)).unpack = _
  rw [unpack_of_toNat number word, unpack_pack_partsOf negative number]

/-- Negation changes the sign and leaves the magnitude. -/
theorem neg_partsOf (negative : Bool) (bits : Nat) :
    (partsOf negative bits).neg = partsOf (!negative) bits := by
  have sign : -signOf negative = signOf (!negative) := by cases negative <;> rfl
  unfold partsOf
  by_cases infinite : bits = infinityBits
  · rw [if_pos infinite, if_pos infinite]
    exact congrArg UnpackedFloat.infinity sign
  · rw [if_neg infinite, if_neg infinite]
    by_cases some : 0 < (dyadicOfBits bits).mantissa
    · rw [dif_pos some, dif_pos some]
      exact finite_congr sign rfl rfl
    · rw [dif_neg some, dif_neg some]
      exact congrArg UnpackedFloat.zero sign

/-- Turning the sign round leaves the magnitude. -/
theorem unpack_neg (number : bits ≤ infinityBits)
    (parts : x.toModel.unpack = partsOf negative bits) :
    (-x).toModel.unpack = partsOf (!negative) bits := by
  show (Float.Model.pack x.toModel.unpack.neg).unpack = _
  rw [parts, neg_partsOf, unpack_pack_partsOf _ number]

theorem isNaN_partsOf (negative : Bool) (bits : Nat) : (partsOf negative bits).isNaN = false := by
  rcases partsOf_cases negative bits with ⟨-, parts⟩ | ⟨-, _, parts⟩ | ⟨-, -, parts⟩ <;>
    (rw [parts]; rfl)

/-- A double is a number if its magnitude is at most infinity. -/
theorem isNaN_eq_false_iff : x.isNaN = false ↔ magnitudeBits x ≤ infinityBits := by
  constructor
  · intro number
    by_contra large
    have bits := toNat_toBits x
    have size : magnitudeBits x < 2 ^ 63 := Nat.mod_lt _ (by decide)
    have largest : (-1#11).toNat = 2047 := rfl
    have none : (0#52).toNat = 0 := rfl
    rw [infinityBits_eq] at large
    have word : x.toModel.toBits.toBitVec.toNat = x.toBits.toNat := rfl
    have exponent : @unpackExponent .binary64 x.toModel.toBits.toBitVec = -1#11 := by
      rw [unpackExponent_eq_iff]
      split at bits <;> omega
    have mantissa : ¬ @unpackMantissa .binary64 x.toModel.toBits.toBitVec = 0#52 := by
      rw [unpackMantissa_eq_iff]
      split at bits <;> omega
    have nan : x.toModel.unpack.isNaN = true := by
      unfold Float.Model.unpack UnpackedFloat.unpack
      dsimp only
      rw [if_pos exponent, if_neg mantissa]
      rfl
    exact absurd (nan.symm.trans number) Bool.noConfusion
  · intro number
    show x.toModel.unpack.isNaN = false
    rw [unpack_eq number, isNaN_partsOf]

/-- A double is finite if its magnitude is less than infinity. -/
theorem isFinite_iff : x.isFinite = true ↔ magnitudeBits x < infinityBits := by
  show x.toModel.unpack.isFinite = true ↔ _
  rcases Nat.lt_or_ge infinityBits (magnitudeBits x) with nan | number
  · have isNaN : x.toModel.unpack.isNaN = true := by
      rw [← Bool.not_eq_false]
      exact fun number => absurd (isNaN_eq_false_iff.mp number) (Nat.not_le_of_lt nan)
    refine iff_of_false (fun finite => ?_) (Nat.not_lt_of_lt nan)
    generalize x.toModel.unpack = parts at isNaN finite
    cases parts with
    | notANumber => cases finite
    | zero | infinity | finite => cases isNaN
  · rw [unpack_eq number]
    rcases partsOf_cases (isNegative x) (magnitudeBits x) with
      ⟨infinite, parts⟩ | ⟨finite, _, parts⟩ | ⟨finite, -, parts⟩
    · rw [parts]
      exact iff_of_false Bool.noConfusion (Nat.not_lt_of_le infinite.ge)
    · rw [parts]
      exact iff_of_true rfl (Nat.lt_of_le_of_ne number finite)
    · rw [parts]
      exact iff_of_true rfl (Nat.lt_of_le_of_ne number finite)

theorem partsOf_congr (negative : Bool) {negative' : Bool} (zero : negative = negative' ∨ bits = 0) :
    unsigned (partsOf negative bits) = unsigned (partsOf negative' bits) := by
  rcases zero with rfl | rfl
  · rfl
  · rw [partsOf_zero, partsOf_zero]
    rfl

/-- The magnitude bits that some parts are those of. -/
def bitsOfParts : UnpackedFloat → Nat
  | .zero _ => 0
  | .finite _ m e _ => (e + 1074).toNat * 2 ^ 52 + m
  | .infinity _ => infinityBits
  | .notANumber => infinityBits + 1

/-- Parts of a magnitude other than zero have a negative sign. -/
def isNegativePart : UnpackedFloat → Bool
  | .finite .negative _ _ _ => true
  | .infinity .negative => true
  | _ => false

/-- The magnitude read off the parts is the one they were made of. -/
theorem bitsOfParts_partsOf (negative : Bool) (number : bits ≤ infinityBits) :
    bitsOfParts (unsigned (partsOf negative bits)) = bits := by
  rcases bits_cases number with rfl | ⟨some, small⟩ | ⟨large, finite⟩ | rfl
  · rw [partsOf_zero]
    rfl
  · rw [partsOf_subnormal _ some small]
    show (-1074 + 1074 : Int).toNat * 2 ^ 52 + bits = bits
    omega
  · rw [partsOf_normal _ large finite]
    show (-1075 + ((bits / 2 ^ 52 : Nat) : Int) + 1074).toNat * 2 ^ 52 +
      (2 ^ 52 + bits % 2 ^ 52) = bits
    omega
  · rw [partsOf_infinity]
    rfl

/-- The sign read off the parts is the one they were made of, except for zero, which has
none. -/
theorem isNegativePart_partsOf (negative : Bool) (number : bits ≤ infinityBits) (some : bits ≠ 0) :
    isNegativePart (unsigned (partsOf negative bits)) = negative := by
  rcases bits_cases number with rfl | ⟨some, small⟩ | ⟨large, finite⟩ | rfl
  · exact absurd rfl some
  · rw [partsOf_subnormal _ some small]
    cases negative <;> rfl
  · rw [partsOf_normal _ large finite]
    cases negative <;> rfl
  · rw [partsOf_infinity]
    cases negative <;> rfl

/-- **Two doubles are equal** if they have the same magnitude and, unless that is zero, the
same sign. -/
theorem beq_iff_bits (number : magnitudeBits x ≤ infinityBits)
    (number' : magnitudeBits y ≤ infinityBits) :
    (x == y) = true ↔ magnitudeBits x = magnitudeBits y ∧
      (isNegative x = isNegative y ∨ magnitudeBits x = 0) := by
  rw [beq_iff, isNaN_eq_false_iff, unpack_eq number, unpack_eq number']
  constructor
  · rintro ⟨-, same⟩
    have bits : magnitudeBits x = magnitudeBits y := by
      rw [← bitsOfParts_partsOf (isNegative x) number, same, bitsOfParts_partsOf _ number']
    refine ⟨bits, ?_⟩
    by_cases zero : magnitudeBits x = 0
    · exact .inr zero
    · left
      rw [← isNegativePart_partsOf (isNegative x) number zero, same,
        isNegativePart_partsOf _ number' (bits ▸ zero)]
  · rintro ⟨same, sign⟩
    rw [← same]
    exact ⟨number, partsOf_congr _ sign⟩

end Doubles

end TernLang.Number
