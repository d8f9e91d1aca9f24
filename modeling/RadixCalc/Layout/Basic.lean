import RadixCalc.Failure
import RadixCalc.Radix

/-!
# Layouts

A layout says how a number is to be shown: in which base, with how many digits before and behind the
point, in which groups, with or without the prefix of its radix, and whether the field of digits is
fixed. A number beyond a fixed field loses its high digits and its sign; only the bit radices have
fixed fields.

* `Layout` is what is asked for, and `Layout.radix` checks that it can be met.
* `Double.scaled` is the magnitude in units of the last digit shown, rounded from the exact value.
* `Layout.keep` cuts a magnitude to the bits of the fixed field.
* `Layout.mask` is the number that is left in a fixed field, with the precision of the field.
-/

namespace RadixCalc

attribute [local instance] corePow

/-- How a number is to be shown. -/
structure Layout where
  /-- The base. -/
  base : Nat
  /-- The least number of digits before the point; 0 stands for 1. -/
  integers : Nat
  /-- The number of digits behind the point. -/
  fraction : Nat
  /-- The number of digits in a group before the point; 0 for no groups. -/
  group : Nat
  /-- Whether the field of digits is fixed. -/
  exactDigits : Bool
  /-- Whether the prefix of the radix is shown. -/
  showRadix : Bool
  deriving DecidableEq, Repr

namespace Layout

/-- One decimal digit or more before the point and none behind. -/
def standard : Layout :=
  ⟨10, 1, 0, 0, false, false⟩

instance : Inhabited Layout := ⟨standard⟩

/-- The size of the groups of thousands. -/
def thousandsGroup : Nat := 3

/-- The size of the groups of four digits. -/
def quadGroup : Nat := 4

/-! ## Checks -/

/-- Checks that neither part is wider than the limit. -/
def checkWidths (integers fraction : Nat) : Except Failure Unit :=
  if maxDigits < integers ∨ maxDigits < fraction then
    .error (.badLayout (.width integers fraction))
  else .ok ()

/-- The radix of a layout that can be met. -/
def radix (l : Layout) : Except Failure Radix :=
  match Radix.ofNat? l.base with
  | none => .error (.badRadix l.base)
  | some r =>
    match checkWidths l.integers l.fraction with
    | .error e => .error e
    | .ok () => .ok r

/-- The least number of digits shown, before and behind the point together. -/
def digitCount (l : Layout) : Nat :=
  max l.integers 1 + l.fraction

end Layout

/-! ## Magnitudes in a radix -/

/-- The magnitude of a finite double in units of `radix ^ -fraction`, the exact value rounded to the
nearest whole number and a half away from zero. -/
def Double.scaled (r : Radix) (fraction units : Nat) : Nat :=
  divNearestUp (units * r.value ^ fraction) unitsPerOne

namespace Layout

/-- The magnitude that is left of `n` in the fixed field of a layout: its low bits, as many as the
digits of the field have together. -/
def keep (l : Layout) (bits n : Nat) : Nat :=
  n &&& ((1 <<< (bits * l.digitCount)) - 1)

/-! ## Numbers in a fixed field -/

/-- A number in a fixed field, and half the weight of the last digit behind the point, or 0 where
there is none. -/
structure Masked where
  value : Double
  tolerance : Double
  deriving DecidableEq, Repr

/-- The radix of a layout whose field is fixed, with the bits of a digit; only a bit radix can have
one. -/
def maskRadix (l : Layout) : Except Failure (Radix × Nat) :=
  match Radix.ofNat? l.base with
  | none => .error (.badRadix l.base)
  | some r =>
    match r.bitsPerDigit? with
    | none => .error (.badRadix l.base)
    | some bits =>
      match checkWidths l.integers l.fraction with
      | .error e => .error e
      | .ok () => .ok (r, bits)

/-- The number that is left of `x` in the fixed field of a layout, whose digits have so many bits.
The sign is lost; an exceptional value is left alone. -/
def maskIn (l : Layout) (r : Radix) (bits : Nat) (x : Double) : Masked :=
  let scale := Double.ofNat (r.value ^ l.fraction)
  let tolerance := if 0 < l.fraction then .one / (.ofNat 2 * scale) else .zero false
  match x.units? with
  | none => ⟨x, tolerance⟩
  | some units => ⟨.ofNat (l.keep bits (Double.scaled r l.fraction units)) / scale, tolerance⟩

/-- The number that is left of `x` in the fixed field of a layout, if it can have one. -/
def mask (l : Layout) (x : Double) : Except Failure Masked :=
  match l.maskRadix with
  | .error e => .error e
  | .ok (r, bits) => .ok (l.maskIn r bits x)

end Layout

end RadixCalc
