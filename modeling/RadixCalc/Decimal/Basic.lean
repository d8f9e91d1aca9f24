import RadixCalc.Digits
import RadixCalc.Double.Rounding

/-!
# Decimal expansions

A decimal is a whole coefficient times a power of ten. This module writes decimals positionally and
says where the first digit of a magnitude stands.

* `Decimal.positional` writes every digit in its place and drops the zeros that end a fraction.
* `Decimal.toDouble` is the nearest double.
* `Decimal.magnitudeExponent` and `Decimal.overPowerOfTen` scale a magnitude so that its leading
  digits become a whole part.
-/

namespace RadixCalc

attribute [local instance] corePow

/-- The number `coefficient · 10 ^ exponent`. -/
structure Decimal where
  /-- The digits, as a whole number. -/
  coefficient : Nat
  /-- The power of ten that the last digit counts. -/
  exponent : Int
  deriving DecidableEq, Repr

namespace Decimal

/-- The double nearest to the decimal. -/
def toDouble (d : Decimal) : Double :=
  Double.ofDecimal false d.coefficient d.exponent

/-! ## Positional writing -/

/-- The text without the zeros at its end. -/
def dropTrailingZeros (text : Text) : Text :=
  (text.reverse.dropWhile (· == '0')).reverse

/-- A numeral split before its last `places` digits, with zeros in front where it is too short to
leave a digit before the split. -/
def splitPlaces (places : Nat) (numeral : Text) : Text × Text :=
  let padded := padZeros (places + 1) numeral
  padded.splitAt (padded.length - places)

/-- A whole part and a fraction with a point between them, or the whole part alone. -/
def joinPoint (whole fraction : Text) : Text :=
  if fraction.isEmpty then whole else whole ++ '.' :: fraction

/-- The decimal with every digit in its place and no exponent; a fraction does not end in 0. -/
def positional (d : Decimal) : Text :=
  if 0 ≤ d.exponent then numeral 10 (d.coefficient * 10 ^ d.exponent.toNat)
  else
    let (whole, fraction) := splitPlaces (-d.exponent).toNat (numeral 10 d.coefficient)
    joinPoint whole (dropTrailingZeros fraction)

/-! ## The leading digits of a magnitude -/

/-- The number of places by which every positive magnitude can be raised above one. -/
def raisingPlaces : Nat := 324

/-- The power of ten of the first digit of a positive magnitude. The raised magnitude is above one,
so counting the digits of its whole part settles every case. -/
def magnitudeExponent (units : Nat) : Int :=
  (digits 10 (units * 10 ^ raisingPlaces / Double.unitsPerOne)).length - 1 - raisingPlaces

/-- A magnitude divided by a power of ten, as numerator and denominator. -/
def overPowerOfTen (units : Nat) (exponent : Int) : Nat × Nat :=
  if 0 ≤ exponent then (units, Double.unitsPerOne * 10 ^ exponent.toNat)
  else (units * 10 ^ (-exponent).toNat, Double.unitsPerOne)

end Decimal

end RadixCalc
