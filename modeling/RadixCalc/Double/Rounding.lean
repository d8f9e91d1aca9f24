import RadixCalc.Double.Basic

/-!
# Rounding to a double

All arithmetic on doubles is exact arithmetic followed by one rounding, and this module holds that
rounding: to the nearest double, a tie going to the even significand, and to infinity beyond the
largest magnitude by half a unit in its last place or more.

A magnitude to be rounded comes as a fraction of units of `2 ^ -1074`. In a binade the significand
has 53 bits, so the unit in the last place is fixed by the whole part of the fraction. Rounding up
to `2 ^ 53` needs no further step, because ranks run on from one binade into the next.

* `Double.ofUnits` is the rounding; it returns what is a double already
  (`Double.ofUnits_unitsOfRank`).
* `Double.ofNat`, `Double.ofInt` and `Double.ofDecimal` are the nearest doubles to integers and to
  decimal numerals.
-/

namespace RadixCalc

attribute [local instance] corePow

/-- The integer nearest to `num / den`, a tie going to the even one. -/
def divNearestEven (num den : Nat) : Nat :=
  let floor := num / den
  let remainder := num % den
  if 2 * remainder < den ∨ (2 * remainder = den ∧ floor % 2 = 0) then floor else floor + 1

/-- The integer nearest to `num / den`, a tie going up. -/
def divNearestUp (num den : Nat) : Nat :=
  (2 * num + den) / (2 * den)

/-- The exponent of the binade that holds a magnitude with this whole number of units. -/
def binadeExponent (units : Nat) : Nat :=
  units.log2 - significandBits

/-- The rank nearest to `num / den` units; it is `rankCount` or more on overflow. -/
def nearestRank (num den : Nat) : Nat :=
  let exponent := binadeExponent (num / den)
  exponent * binadeSize + divNearestEven num (den * 2 ^ exponent)

theorem divNearestEven_mul (q : Nat) {den : Nat} (h : 0 < den) :
    divNearestEven (q * den) den = q := by
  simp [divNearestEven, Nat.mul_div_cancel q h, h]

theorem log2_mul_two_pow {m : Nat} (h : m ≠ 0) (e : Nat) : (m * 2 ^ e).log2 = m.log2 + e := by
  have hp := Nat.two_pow_pos e
  rw [Nat.log2_eq_iff (Nat.mul_ne_zero h (Nat.ne_of_gt hp))]
  constructor
  · rw [Nat.pow_add]
    exact Nat.mul_le_mul_right _ (Nat.log2_self_le h)
  · rw [Nat.add_right_comm, Nat.pow_add]
    exact Nat.mul_lt_mul_of_pos_right Nat.lt_log2_self hp

/-- The binade of a magnitude is the binade of its rank. -/
theorem binadeExponent_unitsOfRank (rank : Nat) :
    binadeExponent (Double.unitsOfRank rank) = Double.exponentOfRank rank := by
  have hm : Double.significandOfRank rank < 2 ^ (significandBits + 1) := by
    rw [Nat.pow_succ]
    change _ < binadeSize * 2
    unfold Double.significandOfRank Double.exponentOfRank
    rw [binadeSize_eq]
    omega
  have he : Double.exponentOfRank rank = 0 ∨
      2 ^ significandBits ≤ Double.significandOfRank rank := by
    change _ ∨ binadeSize ≤ _
    unfold Double.significandOfRank Double.exponentOfRank
    rw [binadeSize_eq]
    omega
  unfold binadeExponent Double.unitsOfRank
  generalize Double.significandOfRank rank = m at *
  generalize Double.exponentOfRank rank = e at *
  by_cases h0 : m = 0
  · subst h0
    simp
    omega
  · rw [log2_mul_two_pow h0]
    have : m.log2 < significandBits + 1 := (Nat.log2_lt h0).2 hm
    rcases he with rfl | he
    · omega
    · have : significandBits ≤ m.log2 := (Nat.le_log2 h0).2 he
      omega

theorem nearestRank_unitsOfRank (rank : Nat) : nearestRank (Double.unitsOfRank rank) 1 = rank := by
  have hsum : Double.exponentOfRank rank * binadeSize + Double.significandOfRank rank = rank := by
    unfold Double.significandOfRank Double.exponentOfRank
    rw [binadeSize_eq]
    omega
  unfold nearestRank
  simp only [Nat.div_one, binadeExponent_unitsOfRank, Nat.one_mul]
  rw [Double.unitsOfRank, divNearestEven_mul _ (Nat.two_pow_pos _), hsum]

namespace Double

/-- The double of this rank, or an infinity where the ranks have ended. -/
def ofRank (negative : Bool) (rank : Nat) : Double :=
  if h : rank < rankCount then finite negative ⟨rank, h⟩ else infinity negative

/-- The double nearest to `num / den` units under the given sign. -/
def ofUnits (negative : Bool) (num den : Nat) : Double :=
  ofRank negative (nearestRank num den)

/-- Rounding an exact value returns it. -/
theorem ofUnits_unitsOfRank (negative : Bool) (rank : Fin rankCount) :
    ofUnits negative (unitsOfRank rank) 1 = finite negative rank := by
  simp [ofUnits, ofRank, nearestRank_unitsOfRank]

/-- The double nearest to a natural number. -/
def ofNat (n : Nat) : Double :=
  ofUnits false (n * unitsPerOne) 1

/-- The double nearest to an integer. -/
def ofInt (i : Int) : Double :=
  ofUnits (decide (i < 0)) (i.natAbs * unitsPerOne) 1

/-- The exponents of ten from which on every decimal numeral but zero overflows. -/
def decimalOverflow : Int := 400

/-- The double nearest to `coefficient · 10 ^ exponent` under the given sign. Numerals that are
sure to overflow or to vanish are settled first, so that no huge power is ever formed: at or above
`10 ^ 400` the answer is an infinity, and below `2 ^ -1080` it is a zero. -/
def ofDecimal (negative : Bool) (coefficient : Nat) (exponent : Int) : Double :=
  if coefficient = 0 then zero negative
  else if decimalOverflow ≤ exponent then infinity negative
  else if 0 ≤ exponent then
    ofUnits negative (coefficient * 10 ^ exponent.toNat * unitsPerOne) 1
  else if coefficient.log2 + 1 + 3 * exponent ≤ -1080 then zero negative
  else ofUnits negative (coefficient * unitsPerOne) (10 ^ (-exponent).toNat)

end Double

end RadixCalc
