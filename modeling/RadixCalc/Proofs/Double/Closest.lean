import RadixCalc.Proofs.Decimal.ReadingBack
import RadixCalc.Proofs.Decimal.Rounded

/-!
# The double closest to a decimal

Rounding takes, of all doubles, one that lies closest to the value. Inside the binade of the value
this is the choice of a whole significand, and what lies below the binade is further away than the
binade's first number.

* `Double.IsClosest` says so of a magnitude, and bounds the distance.
* `Double.nearestRank_grid` places the rounding of a quotient on the grid of its binade;
  `Double.grid_tie` and `Double.grid_closer_of_finer` say what else can lie as close.
* `Double.exists_ofUnits_closest` and `Double.exists_ofDecimal_closest` are the rounding of a
  quotient and of a decimal, up to the greatest magnitude.
-/

namespace RadixCalc

theorem one_le_abs_sub {m n : ℕ} (h : m ≠ n) : (1 : ℚ) ≤ |(m : ℚ) - n| := by
  have hne : (m : ℤ) - n ≠ 0 := sub_ne_zero.2 (by exact_mod_cast h)
  exact_mod_cast Int.one_le_abs hne

/-- No whole number lies closer to the value than the nearest one. -/
theorem IsNearestEven.closest {n : ℕ} {y : ℚ} (h : IsNearestEven n y) (m : ℕ) :
    |(n : ℚ) - y| ≤ |(m : ℚ) - y| := by
  by_cases heq : m = n
  · rw [heq]
  · have hstep := one_le_abs_sub heq
    have htriangle := abs_sub_le (m : ℚ) y n
    have hnear := h.near
    rw [abs_sub_comm y] at htriangle
    linarith

/-- Another whole number that lies equally close is the next one on the other side. -/
theorem IsNearestEven.tie {m n : ℕ} {y : ℚ} (h : IsNearestEven n y) (hne : m ≠ n)
    (heq : |(m : ℚ) - y| = |(n : ℚ) - y|) : Even n ∧ (m = n + 1 ∨ n = m + 1) := by
  have hstep := one_le_abs_sub hne
  have htriangle := abs_sub_le (m : ℚ) y n
  have hnear := h.near
  rw [heq, abs_sub_comm y] at htriangle
  have hhalf : |(n : ℚ) - y| = 1 / 2 := by linarith
  have hone : |(m : ℚ) - n| ≤ 1 := by linarith
  have hint : |(m : ℤ) - n| ≤ 1 := by exact_mod_cast hone
  refine ⟨h.even hhalf, ?_⟩
  rw [abs_le] at hint
  omega

namespace Double

-- Powers with these exponents are never to be computed.
attribute [local irreducible] unitsPerOne topExponent

/-- The magnitude, in units, lies closest to the value among those of all doubles, and no further
away than half a unit in the last place. -/
structure IsClosest (units : ℕ) (y : ℚ) : Prop where
  closest : ∀ rank : ℕ, |(units : ℚ) - y| ≤ |(unitsOfRank rank : ℚ) - y|
  near : |(units : ℚ) - y| ≤ 1 / 2 ∨ |(units : ℚ) - y| ≤ y / 2 ^ 53

/-- A magnitude counted in units of a power of two. -/
theorem abs_grid_sub (k b : ℕ) (y : ℚ) :
    |((k * 2 ^ b : ℕ) : ℚ) - y| = |(k : ℚ) - y / 2 ^ b| * 2 ^ b := by
  have hgrid : (0 : ℚ) < 2 ^ b := by positivity
  rw [abs_sub_comm (k : ℚ), abs_div_sub hgrid, div_mul_cancel₀ _ hgrid.ne', abs_sub_comm y]
  push_cast
  rfl

/-- The doubles with a finer unit lie below the binade. -/
theorem unitsOfRank_lt_of_finer {rank b : ℕ} (h : exponentOfRank rank < b) :
    unitsOfRank rank < binadeSize * 2 ^ b := by
  have hpow : 2 * 2 ^ exponentOfRank rank ≤ 2 ^ b := by
    rw [← pow_succ']
    exact Nat.pow_le_pow_right two_pos h
  calc unitsOfRank rank < 2 * binadeSize * 2 ^ exponentOfRank rank :=
        Nat.mul_lt_mul_of_pos_right (significandOfRank_lt rank) (Nat.two_pow_pos _)
    _ = binadeSize * (2 * 2 ^ exponentOfRank rank) := by ring
    _ ≤ binadeSize * 2 ^ b := Nat.mul_le_mul_left _ hpow

/-- The doubles with a coarser unit are multiples of the finer one. -/
theorem unitsOfRank_of_coarser {rank b : ℕ} (h : b ≤ exponentOfRank rank) :
    ∃ k, unitsOfRank rank = significandOfRank rank * 2 ^ k * 2 ^ b := by
  obtain ⟨k, hk⟩ := Nat.exists_eq_add_of_le' h
  exact ⟨k, by rw [unitsOfRank, hk, pow_add, Nat.mul_assoc]⟩

section Grid

variable {n b : ℕ} {y : ℚ} (hn : IsNearestEven n (y / 2 ^ b))

include hn

/-- The nearest multiple of a power of two. -/
theorem grid_closest (m : ℕ) : |((n * 2 ^ b : ℕ) : ℚ) - y| ≤ |((m * 2 ^ b : ℕ) : ℚ) - y| := by
  rw [abs_grid_sub, abs_grid_sub]
  exact mul_le_mul_of_nonneg_right (hn.closest m) (by positivity)

theorem grid_tie {m : ℕ} (hne : m ≠ n)
    (heq : |((m * 2 ^ b : ℕ) : ℚ) - y| = |((n * 2 ^ b : ℕ) : ℚ) - y|) :
    Even n ∧ (m = n + 1 ∨ n = m + 1) := by
  rw [abs_grid_sub, abs_grid_sub] at heq
  exact hn.tie hne (mul_right_cancel₀ (pow_ne_zero b two_ne_zero) heq)

/-- What lies below the binade is further away. -/
theorem grid_closer_of_finer {rank : ℕ} (hlow : ((binadeSize * 2 ^ b : ℕ) : ℚ) ≤ y)
    (hfiner : exponentOfRank rank < b) :
    |((n * 2 ^ b : ℕ) : ℚ) - y| < |(unitsOfRank rank : ℚ) - y| := by
  have hbelow : (unitsOfRank rank : ℚ) < (binadeSize * 2 ^ b : ℕ) :=
    Nat.cast_lt.2 (unitsOfRank_lt_of_finer hfiner)
  refine (grid_closest hn binadeSize).trans_lt ?_
  rw [abs_of_nonpos (by linarith), abs_of_nonpos (by linarith)]
  linarith

/-- Doubles with a coarser unit are multiples, and those with a finer one lie below the binade. -/
theorem isClosest_grid (hlow : b ≠ 0 → ((binadeSize * 2 ^ b : ℕ) : ℚ) ≤ y) :
    IsClosest (n * 2 ^ b) y := by
  constructor
  · intro rank
    rcases Nat.lt_or_ge (exponentOfRank rank) b with hfiner | hcoarser
    · exact (grid_closer_of_finer hn (hlow (Nat.ne_zero_of_lt hfiner)) hfiner).le
    · obtain ⟨k, hk⟩ := unitsOfRank_of_coarser hcoarser
      rw [hk]
      exact grid_closest hn _
  · have hgrid : (0 : ℚ) < 2 ^ b := by positivity
    have hhalf : |((n * 2 ^ b : ℕ) : ℚ) - y| ≤ 2 ^ b / 2 := by
      rw [abs_grid_sub]
      calc |(n : ℚ) - y / 2 ^ b| * 2 ^ b ≤ 1 / 2 * 2 ^ b :=
            mul_le_mul_of_nonneg_right hn.near hgrid.le
        _ = 2 ^ b / 2 := by ring
    by_cases hb : b = 0
    · left
      rwa [hb, pow_zero] at hhalf ⊢
    · right
      have hbinade := hlow hb
      rw [binadeSize_eq_two_pow, significandBits] at hbinade
      push_cast at hbinade
      refine hhalf.trans ?_
      rw [le_div_iff₀ (by positivity)]
      calc (2 : ℚ) ^ b / 2 * 2 ^ 53 = 2 ^ 52 * 2 ^ b := by ring
        _ ≤ y := hbinade

end Grid

section Quotient

variable (num : ℕ) {den : ℕ} (hden : 0 < den)

include hden

/-- The nearest rank to a quotient is a whole number of units of the binade of the quotient. -/
theorem nearestRank_grid :
    ∃ n b, nearestRank num den = b * binadeSize + n ∧
      unitsOfRank (nearestRank num den) = n * 2 ^ b ∧
      IsNearestEven n ((num : ℚ) / den / 2 ^ b) ∧
      (b ≠ 0 → ((binadeSize * 2 ^ b : ℕ) : ℚ) ≤ (num : ℚ) / den) := by
  have hgrid : 0 < den * 2 ^ binadeExponent (num / den) := Nat.mul_pos hden (Nat.two_pow_pos _)
  have hnearest := isNearestEven_divNearestEven num hgrid
  rw [Nat.cast_mul, Nat.cast_pow, Nat.cast_ofNat, ← div_div] at hnearest
  refine ⟨_, _, rfl, unitsOfRank_nearestRank num hden, hnearest, ?_⟩
  intro hexponent
  have hlow := binade_mul_le num hden (.inr hexponent)
  rw [le_div_iff₀ (Nat.cast_pos.2 hden)]
  calc ((binadeSize * 2 ^ binadeExponent (num / den) : ℕ) : ℚ) * den
      = (binadeSize * (den * 2 ^ binadeExponent (num / den)) : ℕ) := by push_cast; ring
    _ ≤ num := Nat.cast_le.2 hlow

theorem isClosest_nearestRank :
    IsClosest (unitsOfRank (nearestRank num den)) ((num : ℚ) / den) := by
  obtain ⟨n, b, -, hunits, hnearest, hlow⟩ := nearestRank_grid num hden
  rw [hunits]
  exact isClosest_grid hnearest hlow

variable {num}

/-- A quotient up to the greatest magnitude is rounded to a closest double. -/
theorem exists_ofUnits_closest (h : num ≤ greatestUnits * den) (negative : Bool) :
    ∃ rank : Fin rankCount, ofUnits negative num den = finite negative rank ∧
      IsClosest (unitsOfRank rank) ((num : ℚ) / den) := by
  obtain ⟨rank, hrank, hunits⟩ := exists_ofUnits hden h negative
  refine ⟨rank, hrank, ?_⟩
  rw [hunits, ← unitsOfRank_nearestRank num hden]
  exact isClosest_nearestRank num hden

end Quotient

/-! ## Up to the greatest magnitude -/

theorem unitsOfRank_le_greatestUnits (rank : Fin rankCount) :
    unitsOfRank rank ≤ greatestUnits := by
  have hexponent : exponentOfRank rank ≤ topExponent := by
    have hlt : rank.val < 2047 * binadeSize := rank.isLt
    rw [binadeSize_eq] at hlt
    rw [exponentOfRank, topExponent_eq, binadeSize_eq]
    omega
  have hsignificand := significandOfRank_lt rank
  exact Nat.mul_le_mul (by omega) (Nat.pow_le_pow_right two_pos hexponent)

/-- The greatest magnitude. -/
def greatest : ℚ :=
  greatestUnits / unitsPerOne

theorem greatest_eq : greatest = (((2 * binadeSize - 1) * 2 ^ 971 : ℕ) : ℚ) := by
  have hunits : greatestUnits = (2 * binadeSize - 1) * 2 ^ 971 * unitsPerOne := by
    rw [greatestUnits, topExponent_eq, unitsPerOne_eq, Nat.mul_assoc, ← pow_add, unitHalvings]
  rw [greatest, hunits, Nat.cast_mul _ unitsPerOne,
    mul_div_cancel_right₀ _ (Nat.cast_ne_zero.2 unitsPerOne_pos.ne')]

theorem two_mul_greatest_lt : 2 * greatest < 10 ^ 309 := by
  have hlt : 2 * ((2 * binadeSize - 1) * 2 ^ 971) < 10 ^ 309 := by decide +kernel
  rw [greatest_eq]
  exact_mod_cast hlt

theorem div_unitsPerOne_le_greatest (rank : Fin rankCount) :
    (unitsOfRank rank : ℚ) / (unitsPerOne : ℚ) ≤ greatest :=
  div_le_div_of_nonneg_right (Nat.cast_le.2 (unitsOfRank_le_greatestUnits rank))
    cast_unitsPerOne_pos.le

theorem greatest_nonneg : 0 ≤ greatest :=
  div_nonneg (Nat.cast_nonneg _) cast_unitsPerOne_pos.le

theorem greatest_lt : greatest < 10 ^ 309 :=
  (le_mul_of_one_le_left greatest_nonneg one_le_two).trans_lt two_mul_greatest_lt

/-- With digits behind the point. -/
theorem exists_ofDecimal_neg_closest {coefficient places : ℕ}
    (h : (coefficient : ℚ) / 10 ^ places ≤ greatest) (negative : Bool) :
    ∃ rank : Fin rankCount, ofDecimal negative coefficient (-places) = finite negative rank ∧
      IsClosest (unitsOfRank rank) ((coefficient : ℚ) / 10 ^ places * unitsPerOne) := by
  have hten : (0 : ℚ) < (10 ^ places : ℕ) := by positivity
  have hvalue : (coefficient : ℚ) / 10 ^ places * unitsPerOne =
      ((coefficient * unitsPerOne : ℕ) : ℚ) / (10 ^ places : ℕ) := by
    push_cast
    ring
  rw [greatest, le_div_iff₀ (cast_unitsPerOne_pos), hvalue, div_le_iff₀ hten] at h
  rw [hvalue, ofDecimal_neg_eq]
  exact exists_ofUnits_closest (Nat.pow_pos (by decide)) (by exact_mod_cast h) negative

/-- A decimal up to the greatest magnitude is rounded to a closest double. -/
theorem exists_ofDecimal_closest {d : Decimal} (hd : d.coefficient ≠ 0) (h : d.toRat ≤ greatest)
    (negative : Bool) :
    ∃ rank : Fin rankCount, ofDecimal negative d.coefficient d.exponent = finite negative rank ∧
      IsClosest (unitsOfRank rank) (d.toRat * unitsPerOne) := by
  by_cases hexponent : 0 ≤ d.exponent
  · have hlt : d.exponent < decimalOverflow := by
      have hpow : (10 : ℚ) ^ d.exponent < 10 ^ (309 : ℤ) :=
        calc (10 : ℚ) ^ d.exponent ≤ d.toRat := Decimal.zpow_exponent_le_toRat hd
          _ ≤ greatest := h
          _ < 10 ^ (309 : ℤ) := greatest_lt
      have hexponents := (zpow_lt_zpow_iff_right₀ (by norm_num)).1 hpow
      rw [decimalOverflow]
      omega
    have hvalue : d.toRat = ((d.coefficient * 10 ^ d.exponent.toNat : ℕ) : ℚ) / 10 ^ 0 := by
      rw [Decimal.toRat, pow_zero, div_one, Nat.cast_mul, Nat.cast_pow, Nat.cast_ofNat,
        ← zpow_natCast, Int.toNat_of_nonneg hexponent]
    rw [hvalue] at h ⊢
    rw [← ofDecimal_mul_ten_pow_zero negative _ hexponent hlt]
    exact exists_ofDecimal_neg_closest h negative
  · obtain ⟨places, hplaces⟩ : ∃ places : ℕ, d.exponent = -places :=
      ⟨(-d.exponent).toNat, by omega⟩
    rw [Decimal.toRat_of_places hplaces] at h ⊢
    rw [hplaces]
    exact exists_ofDecimal_neg_closest h negative

end Double

end RadixCalc
