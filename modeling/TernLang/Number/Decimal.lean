import TernLang.Number.Binary

/-! # Decimals and their doubles

A decimal is a natural number times a power of ten. `Decimal.toFloat` rounds
it to the nearest double, and `Decimal.shortest` finds the decimal with the
fewest digits that rounds to a given double, of those the nearest one, and of
two equally near ones the even one.
-/

namespace TernLang.Number

/-- The nonnegative value `digits * 10 ^ exponent`. -/
structure Decimal where
  digits : Nat
  exponent : Int
  deriving DecidableEq, Repr

namespace Decimal

/-- The value as a quotient of naturals. -/
def ratio (d : Decimal) : Nat × Nat :=
  if 0 ≤ d.exponent then (d.digits * Nat.pow 10 d.exponent.toNat, 1)
  else (d.digits, Nat.pow 10 (-d.exponent).toNat)

/-- The magnitude bits of the nearest double. -/
def bits (d : Decimal) : Nat :=
  bitsOfRatio d.ratio.1 d.ratio.2

/-- The nearest double, with the given sign. -/
def toFloat (d : Decimal) (negative : Bool) : Float :=
  ofMagnitudeBits negative d.bits

/-- The number that a run of decimal digits writes. -/
def natOfDigits (cs : List Char) : Nat :=
  cs.foldl (fun n c => 10 * n + (c.toNat - '0'.toNat)) 0

/-- The decimal written as `whole`, a point and `fraction`. -/
def ofDigits (whole fraction : List Char) : Decimal :=
  ⟨natOfDigits (whole ++ fraction), -(fraction.length : Int)⟩

/-- Removes zeros at the end of the digits, at most `fuel` of them. -/
def dropZeros : (fuel : Nat) → Decimal → Decimal
  | 0, d => d
  | fuel + 1, d =>
      if d.digits ≠ 0 ∧ d.digits % 10 = 0 then dropZeros fuel ⟨d.digits / 10, d.exponent + 1⟩ else d

def digitChars (n : Nat) : List Char :=
  Nat.toDigits 10 n

/-- The exact decimal of a binary fraction. -/
def exact (value : Dyadic) : Decimal :=
  if 0 ≤ value.exponent then ⟨value.mantissa * Nat.pow 2 value.exponent.toNat, 0⟩
  else ⟨value.mantissa * Nat.pow 5 (-value.exponent).toNat, value.exponent⟩

/-- The number of digits before the point of a decimal without leading zeros;
negative when zeros follow the point. -/
def pointPosition (d : Decimal) : Int :=
  (digitChars d.digits).length + d.exponent

/-- The two neighbours of `value` among the multiples of `10 ^ exponent`: the
one below or at it and the next one. -/
def neighbours (value : Decimal) (exponent : Int) : Decimal × Decimal :=
  let lower :=
    if exponent ≤ value.exponent then value.digits * Nat.pow 10 (value.exponent - exponent).toNat
    else value.digits / Nat.pow 10 (exponent - value.exponent).toNat
  (⟨lower, exponent⟩, ⟨lower + 1, exponent⟩)

/-- Of two neighbours of `value`, the lower one is the nearer; where both are
equally near, the one with an even last digit is taken. -/
def takeLower (value lower upper : Decimal) : Bool :=
  let exponent := min value.exponent (min lower.exponent upper.exponent)
  let scaled (d : Decimal) : Nat := d.digits * Nat.pow 10 (d.exponent - exponent).toNat
  let twice := 2 * scaled value
  let sum := scaled lower + scaled upper
  twice < sum || (twice == sum && lower.digits % 2 == 0)

/-- The multiple of `10 ^ exponent` nearest to `value` that rounds to the double
with magnitude bits `bits`, if one of the two neighbours does. -/
def readingBack? (bits : Nat) (value : Decimal) (exponent : Int) : Option Decimal :=
  let (lower, upper) := value.neighbours exponent
  let lowerReads := lower.bits == bits
  let upperReads := upper.bits == bits
  if lowerReads && (!upperReads || takeLower value lower upper) then some lower
  else if upperReads then some upper
  else none

/-- The decimal with the fewest digits, at most seventeen, that rounds to the
finite double with magnitude bits `bits`, and the nearest of those; the exact
value if there is none. -/
def shortest (bits : Nat) : Decimal :=
  let value := exact (dyadicOfBits bits)
  let point := value.pointPosition
  let found := (List.range' 1 17).findSome? fun (width : Nat) =>
    readingBack? bits value (point - width)
  dropZeros 20 (found.getD value)

end Decimal

end TernLang.Number
