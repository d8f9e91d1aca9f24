import Mathlib
import RadixCalc.Double.Rounding

/-!
# The value of a double as a fraction

* `toRat?_finite` writes the value as a quotient, and `exists_finite_of_toRat?` says that only finite
  doubles have one; `abs_signed_div` and `signed_div_neg_iff` are its magnitude and its sign.
* `divNearestUp_eq_floor` says that the rounding which sends a half upwards is the floor of the
  quotient moved by a half.
-/

namespace RadixCalc

/-- Rounding a quotient with a half going up is the floor of the quotient plus a half. -/
theorem divNearestUp_eq_floor (num : ℕ) {den : ℕ} (h : 0 < den) :
    divNearestUp num den = ⌊(num : ℚ) / den + 1 / 2⌋₊ := by
  have hden : (den : ℚ) ≠ 0 := Nat.cast_ne_zero.2 h.ne'
  have hsum : (num : ℚ) / den + 1 / 2 = ((2 * num + den : ℕ) : ℚ) / ((2 * den : ℕ) : ℚ) := by
    push_cast
    field_simp
  rw [hsum, Nat.floor_div_natCast, Nat.floor_natCast]
  rfl

namespace Double

theorem unitsPerOne_pos : 0 < unitsPerOne := Nat.two_pow_pos _

theorem cast_unitsPerOne_pos : (0 : ℚ) < unitsPerOne :=
  Nat.cast_pos.2 unitsPerOne_pos

theorem div_unitsPerOne_pos {units : ℕ} (h : units ≠ 0) : (0 : ℚ) < units / unitsPerOne :=
  div_pos (Nat.cast_pos.2 (Nat.pos_of_ne_zero h)) cast_unitsPerOne_pos

theorem toRat?_finite (negative : Bool) (rank : Fin rankCount) :
    toRat? (finite negative rank) =
      some ((signed negative (unitsOfRank rank) : ℚ) / (unitsPerOne : ℚ)) := by
  rw [toRat?, Rat.mkRat_eq_div]

/-- What has a value is finite. -/
theorem exists_finite_of_toRat? {x : Double} {q : ℚ} (hx : x.toRat? = some q) :
    ∃ negative rank, x = finite negative rank ∧
      q = (signed negative (unitsOfRank rank) : ℚ) / (unitsPerOne : ℚ) := by
  cases x with
  | nan => cases hx
  | infinity negative => cases hx
  | finite negative rank =>
    rw [toRat?_finite] at hx
    exact ⟨negative, rank, rfl, (Option.some.inj hx).symm⟩

/-- The magnitude of a value. -/
theorem abs_signed_div (negative : Bool) (units : ℕ) :
    |(signed negative units : ℚ) / (unitsPerOne : ℚ)| = (units : ℚ) / (unitsPerOne : ℚ) := by
  rw [abs_div, Nat.abs_cast]
  congr 1
  cases negative with
  | false => exact Nat.abs_cast units
  | true =>
    rw [signed, if_pos rfl, Int.cast_neg, abs_neg]
    exact Nat.abs_cast units

/-- A value is negative where its sign is and its magnitude is not zero. -/
theorem signed_div_neg_iff (negative : Bool) (units : ℕ) :
    (signed negative units : ℚ) / (unitsPerOne : ℚ) < 0 ↔ negative = true ∧ units ≠ 0 := by
  rw [div_lt_iff₀ cast_unitsPerOne_pos, zero_mul, Int.cast_lt_zero]
  cases negative with
  | false => simp [signed]
  | true => simp [signed, Nat.pos_iff_ne_zero]

end Double

end RadixCalc
