/-! # Numbers as binary fractions

A number is a double. Here a finite double is taken apart into a natural
mantissa and a power of two, and a quotient of naturals is rounded to the
nearest double, the even mantissa winning a tie. All arithmetic is exact, on
`Nat`, so that reading and printing of numbers can be reasoned about.
-/

namespace TernLang.Number

/-- The nonnegative value `mantissa * 2 ^ exponent`. -/
structure Dyadic where
  mantissa : Nat
  exponent : Int
  deriving DecidableEq, Repr

/-- The smallest exponent of a double's mantissa. -/
def minExponent : Int := -1074

/-- The bits of positive infinity, also the first code past the finite
magnitudes. -/
def infinityBits : Nat := 2047 * Nat.pow 2 52

def isNegative (x : Float) : Bool :=
  Nat.pow 2 63 ≤ x.toBits.toNat

/-- The bits of a double without its sign. -/
def magnitudeBits (x : Float) : Nat :=
  x.toBits.toNat % Nat.pow 2 63

/-- Neither infinite nor a NaN. -/
def isFinite (x : Float) : Bool :=
  magnitudeBits x < infinityBits

/-- The absolute value of the finite double with magnitude bits `bits`. -/
def dyadicOfBits (bits : Nat) : Dyadic :=
  let fraction := bits % Nat.pow 2 52
  match bits / Nat.pow 2 52 with
  | 0 => ⟨fraction, minExponent⟩
  | biased + 1 => ⟨Nat.pow 2 52 + fraction, minExponent + biased⟩

/-- The absolute value of a finite double. -/
def magnitude (x : Float) : Dyadic :=
  dyadicOfBits (magnitudeBits x)

/-- The magnitude bits of `mantissa * 2 ^ exponent`, for an exponent of at least
`minExponent` and a mantissa of at most 53 bits (or the next power of two); what
is too large becomes infinity. -/
def bitsOfDyadic (value : Dyadic) : Nat :=
  min infinityBits ((value.exponent - minExponent).toNat * Nat.pow 2 52 + value.mantissa)

/-- The double with the given magnitude bits and sign. -/
def ofMagnitudeBits (negative : Bool) (bits : Nat) : Float :=
  Float.ofBits (UInt64.ofNat (if negative then Nat.pow 2 63 + bits else bits))

/-- `num / den` rounded to the nearest natural, a half going to the even one. -/
def roundDiv (num den : Nat) : Nat :=
  let quotient := num / den
  let twice := 2 * (num % den)
  if twice > den || (twice == den && quotient % 2 == 1) then quotient + 1 else quotient

/-- `num / den` divided by `2 ^ exponent`, as a quotient of naturals. -/
def scaleRatio (num den : Nat) (exponent : Int) : Nat × Nat :=
  if 0 ≤ exponent then (num, den * Nat.pow 2 exponent.toNat)
  else (num * Nat.pow 2 (-exponent).toNat, den)

/-- The exponent with which a positive quotient has a mantissa of 53 bits, or
`minExponent` when that would be smaller. -/
def exponentOfRatio (num den : Nat) : Int :=
  let guess : Int := (Nat.log2 num : Int) - (Nat.log2 den : Int)
  let scaled := scaleRatio num den guess
  max minExponent (if scaled.2 ≤ scaled.1 then guess - 52 else guess - 53)

/-- The magnitude bits of the double nearest to `num / den`. -/
def bitsOfRatio (num den : Nat) : Nat :=
  if num = 0 then 0
  else
    let exponent := exponentOfRatio num den
    let scaled := scaleRatio num den exponent
    bitsOfDyadic ⟨roundDiv scaled.1 scaled.2, exponent⟩

def ofNat (n : Nat) : Float :=
  ofMagnitudeBits false (bitsOfRatio n 1)

/-- A finite number without fractional part. -/
def isWhole (x : Float) : Bool :=
  let value := magnitude x
  isFinite x && (0 ≤ value.exponent || value.mantissa % Nat.pow 2 (-value.exponent).toNat == 0)

/-- The absolute value of a whole number. -/
def wholeMagnitude (x : Float) : Nat :=
  let value := magnitude x
  if 0 ≤ value.exponent then value.mantissa * Nat.pow 2 value.exponent.toNat
  else value.mantissa / Nat.pow 2 (-value.exponent).toNat

/-- The value of a whole number; both zeros are `0`. -/
def wholeValue (x : Float) : Int :=
  if isNegative x then -(wholeMagnitude x : Int) else wholeMagnitude x

/-- The whole number that a double is, if it is one. -/
def toInt? (x : Float) : Option Int :=
  if isWhole x then some (wholeValue x) else none

end TernLang.Number
