import RadixCalc.Double.Rounding

/-!
# Arithmetic on doubles

Each operation takes the exact result of its operands and rounds it once. Exceptional operands
follow the usual rules: what is no number stays so, an infinity absorbs a finite summand, and the
forms that have no limit are no number.

* `add`, `sub`, `mul`, `div` are the four operations.
* `remainder` is the remainder of truncated division; it has the sign of the dividend and is exact.
* `floor`, `ceil` and `roundHalfAway` give the neighbouring integers, keeping the sign of a zero.
* `powNat` is a power by repeated squaring, and `ofDigits` the value of a run of digits, both
  rounding at every step.
-/

namespace RadixCalc.Double

/-! ## The four operations -/

/-- The sum. An exact zero is positive unless both summands are negative. -/
def add : Double → Double → Double
  | nan, _ => nan
  | _, nan => nan
  | infinity s, infinity t => if s = t then infinity s else nan
  | infinity s, finite _ _ => infinity s
  | finite _ _, infinity t => infinity t
  | finite s a, finite t b =>
    let sum := signed s (unitsOfRank a) + signed t (unitsOfRank b)
    if sum = 0 then zero (s && t) else ofUnits (decide (sum < 0)) sum.natAbs 1

/-- The difference: the sum with the opposite number. -/
def sub (x y : Double) : Double :=
  x.add y.neg

/-- The product. -/
def mul : Double → Double → Double
  | nan, _ => nan
  | _, nan => nan
  | infinity s, infinity t => infinity (s != t)
  | infinity s, finite t b => if b.val = 0 then nan else infinity (s != t)
  | finite s a, infinity t => if a.val = 0 then nan else infinity (s != t)
  | finite s a, finite t b => ofUnits (s != t) (unitsOfRank a * unitsOfRank b) unitsPerOne

/-- The quotient. -/
def div : Double → Double → Double
  | nan, _ => nan
  | _, nan => nan
  | infinity _, infinity _ => nan
  | infinity s, finite t _ => infinity (s != t)
  | finite s _, infinity t => zero (s != t)
  | finite s a, finite t b =>
    if b.val = 0 then
      if a.val = 0 then nan else infinity (s != t)
    else ofUnits (s != t) (unitsOfRank a * unitsPerOne) (unitsOfRank b)

instance : Add Double := ⟨add⟩
instance : Sub Double := ⟨sub⟩
instance : Mul Double := ⟨mul⟩
instance : Div Double := ⟨div⟩

/-- The remainder of truncated division. -/
def remainder : Double → Double → Double
  | nan, _ => nan
  | _, nan => nan
  | infinity _, _ => nan
  | finite s a, infinity _ => finite s a
  | finite s a, finite _ b =>
    if b.val = 0 then nan else ofUnits s (unitsOfRank a % unitsOfRank b) 1

/-! ## Neighbouring integers -/

/-- Replaces the magnitude by a whole number, computed from the sign and the units. -/
def toWhole (whole : Bool → Nat → Nat) : Double → Double
  | nan => nan
  | infinity s => infinity s
  | finite s a => ofUnits s (whole s (unitsOfRank a) * unitsPerOne) 1

/-- The whole part of a magnitude. -/
def wholePart (units : Nat) : Nat :=
  units / unitsPerOne

/-- The smallest whole number not below a magnitude. -/
def wholeAbove (units : Nat) : Nat :=
  (units + (unitsPerOne - 1)) / unitsPerOne

/-- The greatest integer not above the number. -/
def floor : Double → Double :=
  toWhole fun negative units => if negative then wholeAbove units else wholePart units

/-- The least integer not below the number. -/
def ceil : Double → Double :=
  toWhole fun negative units => if negative then wholePart units else wholeAbove units

/-- The nearest integer, a half going away from zero. -/
def roundHalfAway : Double → Double :=
  toWhole fun _ units => divNearestUp units unitsPerOne

/-! ## Repeated operations -/

/-- A power by repeated squaring: the running product takes a factor for each bit set in the
exponent, the lowest bit first. -/
def powNatFrom (product base : Double) (exponent : Nat) : Double :=
  let product := if exponent % 2 = 1 then product * base else product
  if exponent / 2 = 0 then product else powNatFrom product (base * base) (exponent / 2)
  termination_by exponent

/-- A power with a natural exponent, by repeated squaring. -/
def powNat (base : Double) (exponent : Nat) : Double :=
  powNatFrom one base exponent

/-- The value of a run of digits, highest first, accumulated digit by digit. -/
def ofDigits (base : Nat) (digits : List Nat) : Double :=
  digits.foldl (fun value digit => value * ofNat base + ofNat digit) (zero false)

/-! ## Extremes -/

/-- The smaller of two numbers; an operand that is no number is passed over. -/
def min (x y : Double) : Double :=
  if x.isNaN then y else if y.isNaN then x else if y.lt x then y else x

/-- The greater of two numbers; an operand that is no number is passed over. -/
def max (x y : Double) : Double :=
  if x.isNaN then y else if y.isNaN then x else if x.lt y then y else x

/-! ## Integers -/

/-- The integer part, held between two bounds; an infinity goes to its bound and what is no number
to 0. -/
def toIntBetween (low high : Int) : Double → Int
  | nan => 0
  | infinity negative => if negative then low else high
  | finite negative rank =>
    Max.max low (Min.min high (signed negative (wholePart (unitsOfRank rank))))

/-- The integer part as a 64-bit word, saturating. -/
def toInt64 (x : Double) : Int64 :=
  Int64.ofInt (x.toIntBetween Int64.minValue.toInt Int64.maxValue.toInt)

/-- The double nearest to a 64-bit word. -/
def ofInt64 (w : Int64) : Double :=
  ofInt w.toInt

end RadixCalc.Double
