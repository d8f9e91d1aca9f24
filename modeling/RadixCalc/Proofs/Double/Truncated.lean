import RadixCalc.Proofs.Double.Correct

/-!
# Integers and doubles

Going from a double to a word of some width drops what stands behind the point and stops at the ends
of the width; going back rounds once.

* `Double.IsTruncation` says which integer a double stands for between two bounds, without saying
  how it is found, and `Double.isTruncation_toIntBetween` that `Double.toIntBetween` finds it.
* `Double.IsNearest` is the double nearest to an integer, and `Double.isNearest_ofInt` that
  `Double.ofInt` is that double; up to 53 bits nothing is rounded (`Double.toRat?_ofInt`).
-/

namespace RadixCalc

/-- The integer next to a value on the side of zero. -/
def truncated (q : ℚ) : ℤ :=
  if q < 0 then ⌈q⌉ else ⌊q⌋

theorem truncated_intCast (i : ℤ) : truncated i = i := by
  unfold truncated
  split
  · exact Int.ceil_intCast i
  · exact Int.floor_intCast i

namespace Double

attribute [local irreducible] unitsPerOne

/-! ## From a double to an integer -/

/-- The integer that a double stands for between two bounds: its value truncated and held between
them. An infinity stands for the bound on its side, and what is no number for 0. -/
structure IsTruncation (low high : ℤ) (x : Double) (i : ℤ) : Prop where
  nan : x = nan → i = 0
  infinity : ∀ negative, x = infinity negative → i = if negative then low else high
  finite : ∀ q, x.toRat? = some q → i = Max.max low (Min.min high (truncated q))

variable {low high : ℤ}

/-- A whole value between the bounds stands for itself. -/
theorem IsTruncation.eq_of_toRat? {x : Double} {i j : ℤ} (h : IsTruncation low high x j)
    (hx : x.toRat? = some (i : ℚ)) (hlow : low ≤ i) (hhigh : i ≤ high) : j = i := by
  rw [h.finite i hx, truncated_intCast, min_eq_right hhigh, max_eq_right hlow]

/-- Truncation takes the whole part of the magnitude and leaves the sign. -/
theorem signed_wholePart (negative : Bool) (units : ℕ) :
    signed negative (wholePart units) =
      truncated ((signed negative units : ℚ) / (unitsPerOne : ℚ)) := by
  have hfloor : ⌊(units : ℚ) / (unitsPerOne : ℚ)⌋ = (wholePart units : ℤ) :=
    Rat.floor_natCast_div_natCast units unitsPerOne
  cases negative with
  | false =>
    have hvalue : (signed false units : ℚ) / (unitsPerOne : ℚ) =
        (units : ℚ) / (unitsPerOne : ℚ) := rfl
    have hnonneg : ¬(units : ℚ) / (unitsPerOne : ℚ) < 0 := not_lt.2 (by positivity)
    rw [hvalue, truncated, if_neg hnonneg, hfloor]
    rfl
  | true =>
    have hvalue : (signed true units : ℚ) / (unitsPerOne : ℚ) =
        -((units : ℚ) / (unitsPerOne : ℚ)) := by
      simp [signed, neg_div]
    rw [hvalue, truncated, signed, if_pos rfl, ← hfloor]
    split
    · exact Int.ceil_neg.symm
    · next hnonneg =>
      have hzero : (units : ℚ) / (unitsPerOne : ℚ) = 0 :=
        le_antisymm (neg_nonneg.1 (not_lt.1 hnonneg)) (by positivity)
      simp [hzero]

theorem isTruncation_toIntBetween (low high : ℤ) (x : Double) :
    IsTruncation low high x (x.toIntBetween low high) where
  nan := by
    rintro rfl
    rfl
  infinity := by
    rintro negative rfl
    rfl
  finite := by
    intro q hq
    obtain ⟨negative, rank, rfl, rfl⟩ := exists_finite_of_toRat? hq
    rw [toIntBetween, signed_wholePart]

/-- What a double stands for lies between the bounds. -/
theorem toIntBetween_mem (low high : ℤ) (hlow : low ≤ 0) (hhigh : 0 ≤ high) (x : Double) :
    low ≤ x.toIntBetween low high ∧ x.toIntBetween low high ≤ high := by
  cases x with
  | nan => exact ⟨hlow, hhigh⟩
  | infinity negative =>
    rw [toIntBetween]
    split
    · exact ⟨le_rfl, hlow.trans hhigh⟩
    · exact ⟨hlow.trans hhigh, le_rfl⟩
  | finite negative rank => exact ⟨le_max_left _ _, max_le (hlow.trans hhigh) (min_le_left _ _)⟩

/-! ## From an integer to a double -/

/-- The double is the one nearest to the integer, correctly rounded. -/
def IsNearest (i : ℤ) (x : Double) : Prop :=
  IsRounded (decide (i < 0)) |(i : ℚ)| x

theorem isNearest_ofInt (i : ℤ) : IsNearest i (ofInt i) := by
  apply isRounded_ofUnits _ one_pos
  rw [Nat.cast_mul, Nat.cast_natAbs, Int.cast_abs, Nat.cast_one, div_one]

theorem ofInt_eq (i : ℤ) : ofInt i = if i < 0 then -ofNat i.natAbs else ofNat i.natAbs := by
  have hneg : ∀ units, ofUnits true units 1 = -ofUnits false units 1 := by
    intro units
    unfold ofUnits ofRank
    split <;> rfl
  rw [ofInt, ofNat]
  split
  · next hi => rw [decide_eq_true hi, hneg]
  · next hi => rw [decide_eq_false hi]

/-- An integer of 53 bits is a double. -/
theorem toRat?_ofInt {i : ℤ} (h : i.natAbs ≤ 2 * binadeSize) :
    (ofInt i).toRat? = some (i : ℚ) := by
  have htop : 2 * binadeSize < 2 ^ 1024 := by
    rw [binadeSize_eq_two_pow, ← pow_succ']
    exact pow_lt_pow_right₀ one_lt_two (by decide)
  have hmagnitude := (isShort_of_le h).toRat?_ofNat (h.trans_lt htop)
  rw [ofInt_eq]
  split
  · next hi =>
    rw [toRat?_neg hmagnitude, Nat.cast_natAbs, abs_of_neg hi, Int.cast_neg, neg_neg]
  · next hi =>
    rw [hmagnitude, Nat.cast_natAbs, abs_of_nonneg (not_lt.1 hi)]

end Double

end RadixCalc
