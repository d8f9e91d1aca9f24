import RadixCalc.Double.Arithmetic

/-!
# Roots and transcendental functions

These functions have no rational result to round, so they are taken from the machine: a double goes
through its stored form to a machine number and back. Two functions that the machine does not offer
are expressed through the others: the exponential less one and the logarithm of one plus its
argument. They keep their precision down to the smallest arguments, where the plain functions would
cancel.
-/

namespace RadixCalc.Double

/-- The machine number with the same stored form. -/
def toFloat (x : Double) : Float :=
  Float.ofBits x.toBits

/-- The double with the same stored form as a machine number. -/
def ofFloat (f : Float) : Double :=
  ofBits f.toBits

/-- A machine function as a function of doubles. -/
def viaFloat (f : Float → Float) (x : Double) : Double :=
  ofFloat (f x.toFloat)

/-- A machine function of two arguments as a function of doubles. -/
def viaFloat₂ (f : Float → Float → Float) (x y : Double) : Double :=
  ofFloat (f x.toFloat y.toFloat)

/-! ## Exponential and logarithm near their trivial points -/

/-- The exponential less one. The rounded exponential is the exact one of its own logarithm, so near
zero the argument is scaled by the quotient of the two; where it rounds to one, the argument is the
answer, however small it is. -/
def expLessOne (x : Float) : Float :=
  let power := x.exp
  if power == 1 then x
  else if x.abs < 1 then (power - 1) * (x / power.log)
  else power - 1

/-- The logarithm of one plus the argument. The rounded sum has lost a part of the argument, and
near zero the quotient of the argument by what is left restores it; where the sum rounds to one, the
argument is the answer, however small it is. -/
def logOnePlus (x : Float) : Float :=
  let sum := 1 + x
  if sum == 1 then x
  else if x.abs < 0.5 then sum.log * (x / (sum - 1))
  else sum.log

end RadixCalc.Double
