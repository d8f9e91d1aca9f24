import RadixCalc.Proofs.Double.Closest

/-!
# The correctly rounded double

A value is rounded correctly when no other magnitude lies closer to it, and when, of two that lie
equally close, the one with the even significand is taken. The candidates are the magnitudes of all
ranks, as if there were no greatest exponent; a rank behind the last double stands for an infinity.

* `Double.IsNearestRank` is this choice, and `Double.IsRounded` the double that it gives under a
  sign. Both have one solution at most (`Double.IsRounded.unique`).
* `Double.isNearestRank_nearestRank` says that the rounding of a quotient is the choice.
* `Double.isRounded_ofDecimal` says so of decimals; there the shortcuts for numerals that are sure
  to overflow or to vanish only anticipate the rounding.
-/

namespace RadixCalc

namespace Double

-- A power with this exponent is never to be computed.
attribute [local irreducible] unitsPerOne

/-- The magnitude of the rank, in units, lies closest to the value among the magnitudes of all
ranks; and where that of another rank lies equally close, its significand is even. -/
structure IsNearestRank (rank : ℕ) (y : ℚ) : Prop where
  closest : ∀ other : ℕ, |(unitsOfRank rank : ℚ) - y| ≤ |(unitsOfRank other : ℚ) - y|
  even : ∀ other ≠ rank, |(unitsOfRank other : ℚ) - y| = |(unitsOfRank rank : ℚ) - y| →
    Even (significandOfRank rank)

/-- The double is the magnitude correctly rounded, under the sign. -/
def IsRounded (negative : Bool) (magnitude : ℚ) (x : Double) : Prop :=
  ∃ rank, IsNearestRank rank (magnitude * unitsPerOne) ∧ x = ofRank negative rank

theorem unitsOfRank_injective : Function.Injective unitsOfRank := by
  intro rank other h
  rw [← nearestRank_unitsOfRank rank, h, nearestRank_unitsOfRank]

/-! ## The nearest rank -/

/-- A rank is even with its significand. -/
theorem even_significandOfRank_iff (rank : ℕ) : Even (significandOfRank rank) ↔ Even rank := by
  have hle : exponentOfRank rank * binadeSize ≤ rank := by
    rw [exponentOfRank, binadeSize_eq]
    omega
  have heven : Even (exponentOfRank rank * binadeSize) := (by decide : Even binadeSize).mul_left _
  rw [significandOfRank, Nat.even_sub hle]
  constructor
  · intro h
    exact h.2 heven
  · intro h
    exact iff_of_true h heven

section Quotient

variable {num den rank : ℕ} (hden : 0 < den)

include hden

/-- Of two ranks that lie equally close the rounding takes the even one. -/
theorem nearestRank_tie (hne : rank ≠ nearestRank num den)
    (heq : |(unitsOfRank rank : ℚ) - num / den| =
      |(unitsOfRank (nearestRank num den) : ℚ) - num / den|) :
    Even (nearestRank num den) ∧ ¬Even (significandOfRank rank) := by
  obtain ⟨n, b, hrank, hunits, hnearest, hlow⟩ := nearestRank_grid num hden
  rw [hunits] at heq
  have hcoarser : b ≤ exponentOfRank rank := by
    by_contra hfiner
    rw [not_le] at hfiner
    exact (grid_closer_of_finer hnearest (hlow (Nat.ne_zero_of_lt hfiner)) hfiner).ne' heq
  obtain ⟨k, hk⟩ := unitsOfRank_of_coarser hcoarser
  have hother : significandOfRank rank * 2 ^ k ≠ n := by
    intro hsame
    rw [hsame, ← hunits] at hk
    exact hne (unitsOfRank_injective hk)
  rw [hk] at heq
  obtain ⟨heven, hnext⟩ := grid_tie hnearest hother heq
  constructor
  · rw [hrank]
    exact ((by decide : Even binadeSize).mul_left b).add heven
  · intro hsignificand
    have hboth : Even (significandOfRank rank * 2 ^ k) := hsignificand.mul_right _
    rw [Nat.even_iff] at heven hboth
    omega

/-- The rounding of a quotient is the choice of the nearest rank. -/
theorem isNearestRank_nearestRank : IsNearestRank (nearestRank num den) ((num : ℚ) / den) where
  closest := (isClosest_nearestRank num hden).closest
  even := by
    intro other hne heq
    exact (even_significandOfRank_iff _).2 (nearestRank_tie hden hne heq).1

theorem IsNearestRank.eq_nearestRank (h : IsNearestRank rank ((num : ℚ) / den)) :
    rank = nearestRank num den := by
  by_contra hne
  have heq := le_antisymm (h.closest (nearestRank num den))
    ((isClosest_nearestRank num hden).closest rank)
  exact (nearestRank_tie hden hne heq).2 (h.even _ (Ne.symm hne) heq.symm)

end Quotient

/-- A magnitude has one correctly rounded double. -/
theorem IsRounded.unique {negative : Bool} {magnitude : ℚ} {x y : Double} (h : 0 ≤ magnitude)
    (hx : IsRounded negative magnitude x) (hy : IsRounded negative magnitude y) : x = y := by
  obtain ⟨num, den, hden, hquotient⟩ : ∃ num den : ℕ, 0 < den ∧
      magnitude * unitsPerOne = (num : ℚ) / den := by
    have hnonneg : 0 ≤ magnitude * unitsPerOne := mul_nonneg h (Nat.cast_nonneg _)
    generalize magnitude * unitsPerOne = y at hnonneg
    obtain ⟨n, hn⟩ := Int.eq_ofNat_of_zero_le (Rat.num_nonneg.2 hnonneg)
    refine ⟨n, y.den, y.den_pos, ?_⟩
    rw [← Int.cast_natCast n, ← hn, Rat.num_div_den]
  obtain ⟨rank, hrank, rfl⟩ := hx
  obtain ⟨other, hother, rfl⟩ := hy
  rw [hquotient] at hrank hother
  rw [hrank.eq_nearestRank hden, hother.eq_nearestRank hden]

/-! ## Decimals -/

theorem isRounded_ofUnits (negative : Bool) {num den : ℕ} (hden : 0 < den) {magnitude : ℚ}
    (h : magnitude * unitsPerOne = (num : ℚ) / den) :
    IsRounded negative magnitude (ofUnits negative num den) := by
  refine ⟨nearestRank num den, ?_, rfl⟩
  rw [h]
  exact isNearestRank_nearestRank hden

/-- The shortcut for numerals that are sure to overflow is the rounding of their value. -/
theorem ofDecimal_of_overflow (negative : Bool) {coefficient : ℕ} {exponent : ℤ}
    (hcoefficient : coefficient ≠ 0) (h : decimalOverflow ≤ exponent) :
    ofDecimal negative coefficient exponent =
      ofUnits negative (coefficient * 10 ^ exponent.toNat * unitsPerOne) 1 := by
  have hover : ofDecimal negative coefficient exponent = infinity negative := by
    rw [ofDecimal, if_neg hcoefficient, if_pos h]
  have hexponent : 1024 ≤ 3 * exponent.toNat := by
    rw [decimalOverflow] at h
    omega
  have hpower : 2 ^ 1024 ≤ 10 ^ exponent.toNat := two_pow_le_ten_pow hexponent
  have hvalue : 2 ^ 1024 ≤ coefficient * 10 ^ exponent.toNat :=
    hpower.trans (Nat.le_mul_of_pos_left _ (Nat.pos_of_ne_zero hcoefficient))
  rw [hover, ofUnits_of_le (Nat.mul_le_mul_right _ hvalue)]

/-- A decimal with no digits behind the point is rounded from its exact value. -/
theorem ofDecimal_of_nonneg (negative : Bool) (coefficient : ℕ) {exponent : ℤ}
    (h : 0 ≤ exponent) :
    ofDecimal negative coefficient exponent =
      ofUnits negative (coefficient * 10 ^ exponent.toNat * unitsPerOne) 1 := by
  by_cases hcoefficient : coefficient = 0
  · rw [hcoefficient, ofDecimal_zero, Nat.zero_mul, Nat.zero_mul, ofUnits_zero negative one_pos]
  by_cases hover : decimalOverflow ≤ exponent
  · exact ofDecimal_of_overflow negative hcoefficient hover
  · rw [ofDecimal, if_neg hcoefficient, if_neg hover, if_pos h]

/-- A decimal is rounded from its exact value. -/
theorem isRounded_ofDecimal (negative : Bool) (d : Decimal) :
    IsRounded negative d.toRat (ofDecimal negative d.coefficient d.exponent) := by
  by_cases hexponent : 0 ≤ d.exponent
  · rw [ofDecimal_of_nonneg negative d.coefficient hexponent]
    apply isRounded_ofUnits negative one_pos
    have hpower : (10 : ℚ) ^ d.exponent = 10 ^ d.exponent.toNat := by
      rw [← zpow_natCast, Int.toNat_of_nonneg hexponent]
    rw [Decimal.toRat, hpower]
    push_cast
    ring
  · obtain ⟨places, hplaces⟩ : ∃ places : ℕ, d.exponent = -places :=
      ⟨(-d.exponent).toNat, by omega⟩
    rw [hplaces, ofDecimal_neg_eq]
    apply isRounded_ofUnits negative (Nat.pow_pos (by decide))
    rw [Decimal.toRat_of_places hplaces]
    push_cast
    ring

end Double

end RadixCalc
