import RadixCalc.Decimal.Significant

/-!
# Shortest decimal text

The text of a double is the decimal with the fewest digits that reads back as the same double; among
those it is the nearest one, and of two equally near the greater. It is written positionally,
however long that makes it.

For one digit, two digits and so on, the two neighbours of the value among the decimals with that
many digits are read back; if any decimal of that length reads back, then one of the neighbours
does. Seventeen digits always suffice, and the exact expansion stands behind them.
-/

namespace RadixCalc

attribute [local instance] corePow

namespace Decimal

/-- The exact expansion of a magnitude. -/
def exact (units : Nat) : Decimal :=
  ⟨units * 5 ^ Double.unitHalvings, -Double.unitHalvings⟩

/-- The nearest decimal of `count` digits that reads back as the magnitude, if there is one;
`leading` is the power of ten of the first digit. -/
def readingBack? (rank : Nat) (leading : Int) (count : Nat) : Option Decimal :=
  let exponent := leading - count + 1
  let (num, den) := overPowerOfTen (Double.unitsOfRank rank) exponent
  let below : Decimal := ⟨num / den, exponent⟩
  let above : Decimal := ⟨num / den + 1, exponent⟩
  let readsBack (d : Decimal) : Bool := d.toDouble = Double.ofRank false rank
  if readsBack below && (2 * (num % den) < den || !readsBack above) then some below
  else if readsBack above then some above
  else none

/-- The shortest decimal that reads back as a positive magnitude. -/
def shortest (rank : Nat) : Decimal :=
  let units := Double.unitsOfRank rank
  let leading := magnitudeExponent units
  ((List.range' 1 17).findSome? (readingBack? rank leading)).getD (exact units)

end Decimal

/-- The shortest text of a double, without an exponent. -/
def Double.toText : Double → Text
  | .nan => nanText
  | .infinity negative => infinityText negative
  | .finite negative rank =>
    signText negative (if rank.val = 0 then ['0'] else (Decimal.shortest rank).positional)

end RadixCalc
