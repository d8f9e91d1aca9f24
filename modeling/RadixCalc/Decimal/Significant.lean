import RadixCalc.Decimal.Numeral

/-!
# Significant digits

A double rounded to a number of significant digits, a tie going to the even digit, and the two ways
in which such a number is written:

* `Double.scientificText` keeps every digit and always shows an exponent, as in `1.25e-7`;
* `Double.simpleText` is the plain display of values: fourteen significant digits without the zeros
  that end them, positional while the first digit stands between the thirteenth place before the
  units and the fourth decimal, and otherwise with an exponent, as in `1.25E-7`. It takes the text
  with every digit apart and writes its figures anew (`Double.figuresText`).
-/

namespace RadixCalc

attribute [local instance] corePow

namespace Decimal

/-- A positive magnitude rounded to `count` significant digits, a tie going to the even digit. -/
def significant (count units : Nat) : Decimal :=
  let exponent := magnitudeExponent units - count + 1
  let quotient := overPowerOfTen units exponent
  let coefficient := divNearestEven quotient.1 quotient.2
  if coefficient = 10 ^ count then ⟨10 ^ (count - 1), exponent + 1⟩ else ⟨coefficient, exponent⟩

/-- The power of ten that the first digit counts. -/
def leadingExponent (d : Decimal) : Int :=
  d.exponent + (digits 10 d.coefficient).length - 1

end Decimal

namespace Double

/-! ## Exceptional values -/

/-- The text of what is no number. -/
def nanText : Text := "NaN".toList

/-- The text of an infinity. -/
def infinityText (negative : Bool) : Text :=
  (if negative then "-inf" else "inf").toList

/-- A text under a sign. -/
def signText (negative : Bool) (text : Text) : Text :=
  if negative then '-' :: text else text

/-! ## With every digit -/

/-- The text of an integer. -/
def integerText (i : Int) : Text :=
  signText (decide (i < 0)) (numeral 10 i.natAbs)

/-- The double with `count` significant digits, one of them before the point, and an exponent. -/
def scientificText (count : Nat) : Double → Text
  | nan => nanText
  | infinity negative => infinityText negative
  | finite negative rank =>
    let (figures, exponent) :=
      if rank.val = 0 then (List.replicate count '0', 0)
      else
        let d := Decimal.significant count (unitsOfRank rank)
        (numeral 10 d.coefficient, d.leadingExponent)
    signText negative
      (Decimal.joinPoint (figures.take 1) (figures.drop 1) ++ 'e' :: integerText exponent)

/-! ## Taking it apart -/

/-- A text split at its first `e`, which belongs to neither part; without one the exponent is 0. -/
def splitExponent (text : Text) : Text × Text :=
  match text.dropWhile (· != 'e') with
  | _ :: exponent => (text.takeWhile (· != 'e'), exponent)
  | [] => (text, ['0'])

/-- The integer that a text spells with an optional sign and at least one figure, if it is within a
32-bit word. -/
def integerOfText? (text : Text) : Option Int :=
  let (negative, unsigned) := Numeral.readSign text
  match Numeral.readFigures unsigned with
  | (figure :: figures, []) =>
    let magnitude : Int := valueOfFigures (figure :: figures)
    let value := if negative then -magnitude else magnitude
    if Int32.minValue.toInt ≤ value ∧ value ≤ Int32.maxValue.toInt then some value else none
  | _ => none

/-! ## Plain display -/

/-- The number of significant digits of the plain display. -/
def simpleDigits : Nat := 14

/-- The least exponent of a number that is written positionally. -/
def simpleLowest : Int := -4

/-- Figures with one of them before the point and at least one behind it, and a signed exponent. -/
def exponentText (figures : Text) (exponent : Int) : Text :=
  let fraction := if (figures.drop 1).isEmpty then ['0'] else figures.drop 1
  let exponentSign := if exponent < 0 then '-' else '+'
  figures.take 1 ++ '.' :: fraction ++ 'E' :: exponentSign :: numeral 10 exponent.natAbs

/-- Figures in their places, where the first of them counts this power of ten: behind zeros if that
is a decimal, and otherwise filled up with zeros to the units or with the point among them. -/
def placedText (figures : Text) (exponent : Int) : Text :=
  if exponent < 0 then '0' :: '.' :: (List.replicate (-exponent - 1).toNat '0' ++ figures)
  else
    let places := exponent.toNat + 1
    if figures.length ≤ places then figures ++ List.replicate (places - figures.length) '0'
    else figures.take places ++ '.' :: figures.drop places

/-- Figures in their places, or with an exponent where the places would be too many. -/
def figuresText (figures : Text) (exponent : Int) : Text :=
  if exponent < simpleLowest ∨ simpleDigits ≤ exponent then exponentText figures exponent
  else placedText figures exponent

/-- The plain display of a value: the figures of its significant digits, without the zeros that end
them, with the exponent that these digits are shown with. -/
def simpleText : Double → Text
  | nan => nanText
  | infinity negative => infinityText negative
  | finite negative rank =>
    if rank.val = 0 then ['0']
    else
      let (mantissa, exponent) := splitExponent (scientificText simpleDigits (finite false rank))
      let figures := Decimal.dropTrailingZeros (mantissa.filter Char.isDigit)
      signText negative (figuresText figures ((integerOfText? exponent).getD 0))

end Double

end RadixCalc
