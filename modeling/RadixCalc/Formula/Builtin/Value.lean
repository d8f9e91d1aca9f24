import RadixCalc.Decimal.Basic
import RadixCalc.Double.Transcendental
import RadixCalc.Formula.Builtin
import RadixCalc.Radix

/-!
# Values of the built-in functions

What each function computes from its arguments. A missing argument counts as no number, and so a
function has a value for every list of arguments, whatever its arity. The base of a logarithm and
the places of a rounding are not missing where they are left out: both functions also take one
argument.

* `Double.digitsAsDecimal` shows the integer part in another base and reads the digits as decimal.
* `Double.decimalAsDigits` goes the other way and skips what is no digit of that base.
* `Double.roundTo` rounds to a number of decimal places.
* `Builtin.value` is the value of a call, and `Builtin.valueWith` what it would be if another number
  stood for the missing arguments.
-/

namespace RadixCalc

namespace Double

/-- The digits of the integer part in another base, read as a decimal number. The integer part is a
64-bit word, so negative numbers show their two's complement. -/
def digitsAsDecimal (radix : Radix) (x : Double) : Double :=
  ofDecimal false (valueOfDigits 10 (digits radix.value x.toInt64.toUInt64.toNat)) 0

/-- The decimal digits of the integer part without its sign, read in another base; digits that the
base does not have are skipped, and an exceptional value has no digits. -/
def decimalAsDigits (radix : Radix) (x : Double) : Double :=
  match x.units? with
  | none => zero false
  | some units => radix.toDouble ((digits 10 (wholePart units)).filter (· < radix.value))

/-- The number of decimal places that an argument asks for, as a 32-bit word, saturating. -/
def toPlaces (x : Double) : Int32 :=
  Int32.ofInt (x.toIntBetween Int32.minValue.toInt Int32.maxValue.toInt)

/-- A power of ten whose exponent is a 32-bit word, by repeated squaring; a negative exponent gives
the reciprocal. -/
def powerOfTen (exponent : Int32) : Double :=
  let power := powNat (ofNat 10) exponent.toInt.natAbs
  if exponent < 0 then .one / power else power

/-- The number rounded to a multiple of a power of ten, a half going away from zero. -/
def roundToMultiple (x : Double) (exponent : Int32) : Double :=
  let scale := powerOfTen exponent
  (x / scale).roundHalfAway * scale

/-- The number rounded to decimal places, a half going away from zero; a negative number of places
rounds to a power of ten. The places are negated as a word, so the least of them stay what they
are. -/
def roundTo (x places : Double) : Double :=
  let places := places.toPlaces
  if places < 0 then x.roundToMultiple (-places)
  else
    let scale := powerOfTen places
    (x * scale).roundHalfAway / scale

/-- The number of degrees in a half turn. -/
def halfTurn : Double := ofNat 180

end Double

namespace Builtin

open Double (viaFloat viaFloat₂ ofBool)

/-- The value of a call where a number stands for every missing argument. -/
def valueWith (missing : Double) (f : Builtin) (args : List Double) : Double :=
  let a := args.head?.getD missing
  let b := args[1]?.getD missing
  match f with
  | pi => .pi
  | abs => a.abs
  | acos => viaFloat Float.acos a
  | acosh => viaFloat Float.acosh a
  | asin => viaFloat Float.asin a
  | asinh => viaFloat Float.asinh a
  | atan => viaFloat Float.atan a
  | atanh => viaFloat Float.atanh a
  | bindec => a.decimalAsDigits .binary
  | ceil => a.ceil
  | cos => viaFloat Float.cos a
  | cosh => viaFloat Float.cosh a
  | decbin => a.digitsAsDecimal .binary
  | decoct => a.digitsAsDecimal .octal
  | deg2rad => a * (.pi / .halfTurn)
  | exp => viaFloat Float.exp a
  | expm1 => viaFloat Double.expLessOne a
  | floor => a.floor
  | isFinite => ofBool a.isFinite
  | isInfinite => ofBool a.isInfinite
  | isNan => ofBool a.isNaN
  | log10 => viaFloat Float.log10 a
  | log1p => viaFloat Double.logOnePlus a
  | octdec => a.decimalAsDigits .octal
  | rad2deg => a * (.halfTurn / .pi)
  | sin => viaFloat Float.sin a
  | sinh => viaFloat Float.sinh a
  | sqrt => viaFloat Float.sqrt a
  | tan => viaFloat Float.tan a
  | tanh => viaFloat Float.tanh a
  | log =>
    match args[1]? with
    | none => viaFloat Float.log a
    | some base => viaFloat Float.log a / viaFloat Float.log base
  | round => a.roundTo (args[1]?.getD (.zero false))
  | atan2 => viaFloat₂ Float.atan2 a b
  | fmod => a.remainder b
  | pow => viaFloat₂ Float.pow a b
  | min => args.foldl Double.min (.infinity false)
  | max => args.foldl Double.max (.infinity true)

/-- The value of a call. -/
def value (f : Builtin) (args : List Double) : Double :=
  f.valueWith .nan args

end Builtin

end RadixCalc
