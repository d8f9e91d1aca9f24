import RadixCalc.Digits
import RadixCalc.Double.Arithmetic

/-!
# Radices

A radix is a base from 2 to 36. Bases 2, 8 and 16 are the *bit radices*: each of their digits is a
whole number of bits, they show a prefix, and a number can be masked to a fixed field of digits in
them. These and base 10 have a letter, `b`, `o`, `x` and `d`, which names them in layouts and,
behind a 0, in numbers.
-/

namespace RadixCalc

/-- A base from 2 to 36. -/
structure Radix where
  /-- The base. -/
  value : Nat
  two_le : 2 ≤ value
  le_thirtySix : value ≤ 36
  deriving DecidableEq, Repr

namespace Radix

/-- The radix of this base, if the base is in range. -/
def ofNat? (base : Nat) : Option Radix :=
  if h : 2 ≤ base ∧ base ≤ 36 then some ⟨base, h.1, h.2⟩ else none

/-- Base 2. -/
def binary : Radix := ⟨2, by decide, by decide⟩

/-- Base 8. -/
def octal : Radix := ⟨8, by decide, by decide⟩

/-- Base 10. -/
def decimal : Radix := ⟨10, by decide, by decide⟩

/-- Base 16. -/
def hexadecimal : Radix := ⟨16, by decide, by decide⟩

/-- The number of bits in a digit of a bit radix. -/
def bitsPerDigit? (r : Radix) : Option Nat :=
  if r.value = 2 then some 1
  else if r.value = 8 then some 3
  else if r.value = 16 then some 4
  else none

/-- The prefix that a bit radix shows in front of its digits. -/
def shownPrefix? (r : Radix) : Option Text :=
  if r.value = 2 then some ['0', 'b']
  else if r.value = 8 then some ['0', 'o']
  else if r.value = 16 then some ['0', 'x']
  else none

/-- The radix that a letter of either case names. -/
def ofLetter? (c : Char) : Option Radix :=
  match c.toLower with
  | 'b' => some binary
  | 'o' => some octal
  | 'd' => some decimal
  | 'x' => some hexadecimal
  | _ => none

/-- The radix that a whole prefix names; unlike the shown prefixes these include `0d`. -/
def ofPrefix? : Text → Option Radix
  | ['0', c] => ofLetter? c
  | _ => none

/-- The value of a digit character in this radix. -/
def digitValue? (r : Radix) (c : Char) : Option Nat :=
  (RadixCalc.digitValue? c).filter (· < r.value)

/-- The value of a run of digits as a double, accumulated digit by digit. -/
def toDouble (r : Radix) (ds : List Nat) : Double :=
  Double.ofDigits r.value ds

end Radix

end RadixCalc
