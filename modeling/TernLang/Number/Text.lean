import TernLang.Number.Decimal
import TernLang.Text.Blank
import TernLang.Text.Digits

/-! # Texts of numbers

Two ways to write a number, both with the fewest digits that read back.
`display` is what a program prints: a whole number in full and without point,
any other positionally. `inspect` is what a dump shows: always with a point or
an exponent, positional for decimal exponents from -4 to 15. `read?` reads
either, and exponents, infinities and NaN.
-/

namespace TernLang.Number

open Decimal

/-- A decimal point inside or in front of digits: `point` digits stand before
it. -/
def placePoint (digits : List Char) (point : Int) : List Char :=
  if point ≤ 0 then '0' :: '.' :: List.replicate (-point).toNat '0' ++ digits
  else if (digits.length : Int) ≤ point then
    digits ++ List.replicate (point - digits.length).toNat '0' ++ ['.', '0']
  else digits.take point.toNat ++ '.' :: digits.drop point.toNat

/-- The minus sign of a negative number. -/
def signText (negative : Bool) : List Char :=
  if negative then ['-'] else []

def exceptional (x : Float) : List Char :=
  if magnitudeBits x = infinityBits then signText (isNegative x) ++ ['i', 'n', 'f']
  else ['n', 'a', 'n']

def wholeText (value : Int) : List Char :=
  signText (value < 0) ++ digitChars value.natAbs

/-- The characters that a program prints for a number. -/
def displayChars (x : Float) : List Char :=
  if !isFinite x then exceptional x
  else if isWhole x then wholeText (wholeValue x)
  else
    let d := shortest (magnitudeBits x)
    signText (isNegative x) ++ placePoint (digitChars d.digits) d.pointPosition

/-- The text that a program prints for a number. -/
def display (x : Float) : String :=
  String.ofList (displayChars x)

/-- An exponent of two digits or more, with its sign. -/
def exponentText (exponent : Int) : List Char :=
  let digits := digitChars exponent.natAbs
  'e' :: (if exponent < 0 then '-' else '+') ::
    (if digits.length < 2 then '0' :: digits else digits)

/-- One digit, a point and the other digits, or the one digit alone. -/
def leadingDigit : List Char → List Char
  | first :: second :: rest => first :: '.' :: second :: rest
  | digits => digits

/-- The characters that a dump shows for a number. -/
def inspectChars (x : Float) : List Char :=
  if !isFinite x then exceptional x
  else
    let d := shortest (magnitudeBits x)
    let digits := digitChars d.digits
    let point := d.pointPosition
    signText (isNegative x) ++
      if magnitudeBits x = 0 then ['0', '.', '0']
      else if -4 < point && point ≤ 16 then placePoint digits point
      else leadingDigit digits ++ exponentText (point - 1)

/-- The text that a dump shows for a number. -/
def inspect (x : Float) : String :=
  String.ofList (inspectChars x)

/-- The digits before and after a point; one side may be empty. -/
def readMantissa? (cs : List Char) : Option (List Nat × List Nat) :=
  let whole := cs.takeWhile (· != '.')
  match cs.dropWhile (· != '.') with
  | [] => do pure (← Text.digits? whole, [])
  | _ :: [] => do pure (← Text.digits? whole, [])
  | _ :: fraction =>
      if whole.isEmpty then do pure ([], ← Text.digits? fraction)
      else do pure (← Text.digits? whole, ← Text.digits? fraction)

def readExponent? (cs : List Char) : Option Int := do
  let (negative, rest) := Text.splitSign cs
  let digits ← Text.digits? rest
  let size := Text.ofDigits digits
  pure (if negative then -(size : Int) else size)

/-- The number written with a mantissa and an exponent. An exponent beyond the
number of digits by more than 400 is as good as any larger one. -/
def ofParts (negative : Bool) (whole fraction : List Nat) (exponent : Int) : Float :=
  let bound : Int := 400 + (whole.length + fraction.length : Nat)
  let clamped := max (-bound) (min bound exponent)
  Decimal.toFloat ⟨Text.ofDigits (whole ++ fraction), clamped - fraction.length⟩ negative

def readUnsigned? (negative : Bool) (cs : List Char) : Option Float :=
  let lower := String.ofList (cs.map Char.toLower)
  if lower == "inf" || lower == "infinity" then some (ofMagnitudeBits negative infinityBits)
  else if lower == "nan" then some (ofMagnitudeBits false (infinityBits + Nat.pow 2 51))
  else
    let isMark (c : Char) : Bool := c == 'e' || c == 'E'
    let mantissa := cs.takeWhile (!isMark ·)
    match cs.dropWhile (!isMark ·) with
    | [] => do
        let (whole, fraction) ← readMantissa? mantissa
        pure (ofParts negative whole fraction 0)
    | _ :: rest => do
        let (whole, fraction) ← readMantissa? mantissa
        pure (ofParts negative whole fraction (← readExponent? rest))

/-- The number that a text writes, with blanks around it ignored. -/
def read? (text : String) : Option Float :=
  let (negative, rest) := Text.splitSign (Text.trim text.toList)
  readUnsigned? negative rest

end TernLang.Number
