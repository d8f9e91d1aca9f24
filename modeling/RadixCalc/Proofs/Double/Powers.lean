import RadixCalc.Proofs.Double.Accumulated
import RadixCalc.Proofs.Double.Closest

/-!
# Powers by repeated squaring

Repeated squaring rounds once for each factor of the power, and from the first square or product
that overflows the result is an infinity. So a power differs from the exact one by as many roundings
as it has factors, or it has overflowed; and it overflows only where so many roundings bring the
exact power to the end of the range.

* `Double.Attains` is this alternative, for values from one on.
* `Double.attains_ofUnits` is one rounding, `Double.Attains.mul` a product and
  `Double.attains_powNatFrom` the run.
* `Double.near_powNat` is the case of small powers; `Double.exists_powNat_ten` and
  `Double.powNat_ten_of_lt` are the powers of ten, which overflow from `10 ^ 309` on.
-/

namespace RadixCalc

namespace Double

-- The number of units in one and the greatest binade are never to be computed.
attribute [local irreducible] unitsPerOne topExponent

/-- The double is one or more and differs from the value by `k` roundings at most; or it has
overflowed, and `k` roundings bring the value to the end of the range. -/
inductive Attains (k : ℕ) : Double → ℚ → Prop where
  | near {rank : Fin rankCount} {q : ℚ} (hone : unitsPerOne ≤ unitsOfRank rank)
      (h : Within k ((unitsOfRank rank : ℚ) / (unitsPerOne : ℚ)) q) :
      Attains k (finite false rank) q
  | overflow {q : ℚ} (h : 2 ^ 1024 ≤ q * spread ^ k) : Attains k (infinity false) q

/-! ## One rounding -/

theorem exists_unitsOfRank_eq_one : ∃ rank, unitsOfRank rank = unitsPerOne := by
  refine ⟨1022 * binadeSize + binadeSize, ?_⟩
  rw [unitsOfRank_of_leading (by decide) (.inl le_rfl), binadeSize_eq_two_pow, ← pow_add,
    unitsPerOne_eq, unitHalvings, significandBits]

/-- Behind the last rank the magnitudes lie beyond the range. -/
theorem le_unitsOfRank {rank : ℕ} (h : rankCount ≤ rank) :
    2 ^ 1024 * unitsPerOne ≤ unitsOfRank rank := by
  have hexponent : topExponent + 1 ≤ exponentOfRank rank := by
    rw [rankCount] at h
    rw [exponentOfRank, topExponent_eq]
    rw [binadeSize_eq] at *
    omega
  have hsignificand : binadeSize ≤ significandOfRank rank := by
    rw [rankCount] at h
    rw [significandOfRank, exponentOfRank]
    rw [binadeSize_eq] at *
    omega
  have hbits : 1024 + unitHalvings = significandBits + (topExponent + 1) := by
    rw [topExponent_eq, unitHalvings, significandBits]
  calc 2 ^ 1024 * unitsPerOne = binadeSize * 2 ^ (topExponent + 1) := by
        rw [unitsPerOne_eq, binadeSize_eq_two_pow, ← pow_add, ← pow_add, hbits]
    _ ≤ unitsOfRank rank :=
        Nat.mul_le_mul hsignificand (Nat.pow_le_pow_right two_pos hexponent)

section Quotient

variable {num den : ℕ} (hden : 0 < den) (hone : unitsPerOne * den ≤ num)

include hden hone

/-- What is one or more is rounded to one or more. -/
theorem unitsPerOne_le_nearestRank : unitsPerOne ≤ unitsOfRank (nearestRank num den) := by
  obtain ⟨rank, hrank⟩ := exists_unitsOfRank_eq_one
  have hclosest := (isClosest_nearestRank num hden).closest rank
  have hvalue : (unitsPerOne : ℚ) ≤ (num : ℚ) / den := by
    rw [le_div_iff₀ (Nat.cast_pos.2 hden)]
    exact_mod_cast hone
  by_contra hlt
  have hlt : (unitsOfRank (nearestRank num den) : ℚ) < unitsPerOne := Nat.cast_lt.2 (not_le.1 hlt)
  rw [hrank, abs_of_nonpos (by linarith), abs_of_nonpos (by linarith)] at hclosest
  linarith

/-- The magnitude of the nearest rank differs from the quotient by one rounding, also where there is
no double of this rank. -/
theorem within_nearestRank :
    Within 1 ((unitsOfRank (nearestRank num den) : ℚ) / (unitsPerOne : ℚ))
      ((num : ℚ) / ((den * unitsPerOne : ℕ) : ℚ)) := by
  have hunit := cast_unitsPerOne_pos
  have hlarge : (2 : ℚ) ^ 53 ≤ (num : ℚ) / den := by
    have hpow : (2 : ℚ) ^ 53 ≤ unitsPerOne := by
      rw [unitsPerOne_eq, Nat.cast_pow]
      exact pow_le_pow_right₀ one_le_two (by decide)
    refine hpow.trans ?_
    rw [le_div_iff₀ (Nat.cast_pos.2 hden)]
    exact_mod_cast hone
  have herror : |(unitsOfRank (nearestRank num den) : ℚ) - num / den| ≤ num / den / 2 ^ 53 := by
    rcases (isClosest_nearestRank num hden).near with hhalf | hpart
    · refine hhalf.trans ?_
      rw [le_div_iff₀ (by positivity)]
      linarith
    · exact hpart
  rw [Nat.cast_mul, ← div_div]
  generalize (num : ℚ) / den = y at *
  rw [abs_le] at herror
  constructor
  · rw [div_mul_eq_mul_div, div_le_div_iff_of_pos_right hunit, pow_one, spread, cast_binadeSize]
    linarith
  · rw [div_mul_eq_mul_div, div_le_div_iff_of_pos_right hunit, pow_one, spread, cast_binadeSize]
    linarith

/-- Rounding is one rounding more. -/
theorem attains_ofUnits {k : ℕ} {q : ℚ}
    (h : Within k ((num : ℚ) / ((den * unitsPerOne : ℕ) : ℚ)) q) :
    Attains (k + 1) (ofUnits false num den) q := by
  have hwithin := (within_nearestRank hden hone).trans h
  rw [Nat.add_comm] at hwithin
  rw [ofUnits, ofRank]
  split
  · next hrank => exact .near (unitsPerOne_le_nearestRank hden hone) hwithin
  · next hrank =>
    refine .overflow (le_trans ?_ hwithin.mul_le)
    rw [le_div_iff₀ cast_unitsPerOne_pos]
    exact_mod_cast le_unitsOfRank (not_lt.1 hrank)

end Quotient

/-! ## Products and powers -/

namespace Attains

variable {j k : ℕ} {x y : Double} {p q : ℚ}

/-- Where the roundings leave room below the end of the range, nothing has overflowed. -/
theorem exists_rank (h : Attains k x q) (hlt : q * spread ^ k < 2 ^ 1024) :
    ∃ rank : Fin rankCount, x = finite false rank ∧ unitsPerOne ≤ unitsOfRank rank ∧
      Within k ((unitsOfRank rank : ℚ) / (unitsPerOne : ℚ)) q := by
  cases h with
  | near hone hwithin => exact ⟨_, rfl, hone, hwithin⟩
  | overflow hle => exact absurd hle (not_le.2 hlt)

/-- A factor from one on leaves an overflow where it is. -/
theorem overflow_mul (h : 2 ^ 1024 ≤ p * spread ^ j) (hq : 1 ≤ q) (k : ℕ) :
    2 ^ 1024 ≤ p * q * spread ^ (j + k + 1) := by
  have hpos : (0 : ℚ) < 2 ^ 1024 := pow_pos two_pos _
  have hfactor : 1 ≤ q * spread ^ (k + 1) := one_le_mul_of_one_le_of_one_le hq (one_le_spread_pow _)
  calc (2 : ℚ) ^ 1024 ≤ p * spread ^ j := h
    _ ≤ p * spread ^ j * (q * spread ^ (k + 1)) :=
        le_mul_of_one_le_right (hpos.le.trans h) hfactor
    _ = p * q * spread ^ (j + k + 1) := by rw [Nat.add_assoc, pow_add]; ring

theorem rank_ne_zero {rank : ℕ} (h : unitsPerOne ≤ unitsOfRank rank) : rank ≠ 0 :=
  Double.rank_ne_zero (unitsPerOne_pos.trans_le h).ne'

/-- A product rounds once more than its factors. -/
theorem mul (hx : Attains j x p) (hy : Attains k y q) (hp : 1 ≤ p) (hq : 1 ≤ q) :
    Attains (j + k + 1) (x * y) (p * q) := by
  cases hx with
  | @near a _ ha hwithin =>
    cases hy with
    | @near b _ hb hwithin' =>
      rw [finite_mul_finite]
      refine attains_ofUnits unitsPerOne_pos (Nat.mul_le_mul ha hb) ?_
      rw [Nat.cast_mul, Nat.cast_mul, mul_div_mul_comm]
      exact hwithin.mul hwithin' (zero_le_one.trans hp) (zero_le_one.trans hq)
    | overflow hover =>
      have hinfinite : finite false a * infinity false = infinity false := if_neg (rank_ne_zero ha)
      rw [hinfinite, mul_comm p, Nat.add_comm j]
      exact .overflow (overflow_mul hover hp j)
  | overflow hover =>
    cases hy with
    | @near b _ hb _ =>
      rw [infinity_mul_finite _ _ _ (rank_ne_zero hb)]
      exact .overflow (overflow_mul hover hq k)
    | overflow _ => exact .overflow (overflow_mul hover hq k)

end Attains

/-- Repeated squaring rounds once for each factor of the power. -/
theorem attains_powNatFrom {j k f : ℕ} {product square : Double} {P S : ℚ}
    (hproduct : Attains j product P) (hsquare : Attains k square S) (hP : 1 ≤ P) (hS : 1 ≤ S) :
    Attains (j + (k + 1) * f) (powNatFrom product square f) (P * S ^ f) := by
  induction f using Nat.strong_induction_on generalizing j k P S product square with
  | _ f ih =>
    have hsplit := Nat.mod_add_div f 2
    have hsteps : (k + 1) * f = (k + 1) * (f % 2) + (k + k + 1 + 1) * (f / 2) := by
      conv_lhs => rw [← hsplit]
      ring
    have hpower : P * S ^ f = P * S ^ (f % 2) * (S * S) ^ (f / 2) := by
      conv_lhs => rw [← hsplit]
      rw [pow_add, pow_mul, pow_two, mul_assoc]
    have hproduct' : Attains (j + (k + 1) * (f % 2))
        (if f % 2 = 1 then product * square else product) (P * S ^ (f % 2)) := by
      rcases Nat.mod_two_eq_zero_or_one f with hf | hf
      · simpa [hf] using hproduct
      · rw [hf, if_pos rfl, Nat.mul_one, pow_one, ← Nat.add_assoc]
        exact hproduct.mul hsquare hP hS
    rw [powNatFrom]
    by_cases hzero : f / 2 = 0
    · rw [if_pos hzero, hsteps, hpower, hzero, Nat.mul_zero, Nat.add_zero, pow_zero, mul_one]
      exact hproduct'
    · rw [if_neg hzero, hsteps, hpower, ← Nat.add_assoc]
      exact ih (f / 2) (by omega) hproduct' (hsquare.mul hsquare hS hS)
        (one_le_mul_of_one_le_of_one_le hP (one_le_pow₀ hS))
        (one_le_mul_of_one_le_of_one_le hS hS)

theorem attains_ofNat {n : ℕ} (hpos : 1 ≤ n) (hn : n ≤ 36) : Attains 0 (ofNat n) n := by
  obtain ⟨hshort, hlt⟩ := isShort_and_lt_of_le hn
  obtain ⟨rank, hrank, hunits⟩ := hshort.exists_ofNat hlt
  rw [hrank]
  refine .near ?_ ?_
  · rw [hunits]
    exact Nat.le_mul_of_pos_left _ hpos
  · rw [hunits, Nat.cast_mul, mul_div_cancel_right₀ _ cast_unitsPerOne_pos.ne']
    exact .refl 0 (Nat.cast_nonneg n)

/-- A power by repeated squaring rounds once for each of its factors. -/
theorem attains_powNat {base : ℕ} (hb : 1 ≤ base ∧ base ≤ 36) (f : ℕ) :
    Attains f ((ofNat base).powNat f) ((base : ℚ) ^ f) := by
  have hone : Attains 0 (ofNat 1) _ := attains_ofNat le_rfl (by decide)
  have hpower := attains_powNatFrom (f := f) hone (attains_ofNat hb.1 hb.2) (by norm_num)
    (Nat.one_le_cast.2 hb.1)
  rwa [ofNat_one, Nat.zero_add, Nat.zero_add, Nat.one_mul, Nat.cast_one, one_mul] at hpower

/-! ## Powers that do not overflow, and powers that do -/

/-- The powers of a base that numbers are shown in. -/
theorem near_powNat {base f : ℕ} (hb : 2 ≤ base ∧ base ≤ 36) (hf : f ≤ 64) :
    Near f ((ofNat base).powNat f) ((base ^ f : ℕ) : ℚ) := by
  have hbits : ((base ^ f : ℕ) : ℚ) ≤ 2 ^ 384 := by
    have hle : base ^ f ≤ 2 ^ 384 :=
      calc base ^ f ≤ (2 ^ 6) ^ f := Nat.pow_le_pow_left (hb.2.trans (by decide)) f
        _ = 2 ^ (6 * f) := (pow_mul 2 6 f).symm
        _ ≤ 2 ^ 384 := pow_le_pow_right₀ one_le_two (by omega)
    exact_mod_cast hle
  have hspread : spread ^ f ≤ 1 + 1 / 10 ^ 12 := spread_pow_le (hf.trans (by decide))
  have hsmall : (1 : ℚ) + 1 / 10 ^ 12 < 2 ^ 640 :=
    lt_of_lt_of_le (by norm_num : (1 : ℚ) + 1 / 10 ^ 12 < 2 ^ 1)
      (pow_le_pow_right₀ one_le_two (by decide))
  have hattains : Attains f ((ofNat base).powNat f) _ := attains_powNat ⟨by omega, hb.2⟩ f
  rw [← Nat.cast_pow] at hattains
  have hlt : ((base ^ f : ℕ) : ℚ) * spread ^ f < 2 ^ 1024 :=
    calc ((base ^ f : ℕ) : ℚ) * spread ^ f ≤ 2 ^ 384 * (1 + 1 / 10 ^ 12) :=
          mul_le_mul hbits hspread (spread_pow_pos f).le (by positivity)
      _ < 2 ^ 384 * 2 ^ 640 := mul_lt_mul_of_pos_left hsmall (by positivity)
      _ = 2 ^ 1024 := by rw [← pow_add]
  obtain ⟨rank, hrank, -, hwithin⟩ := hattains.exists_rank hlt
  exact ⟨rank, hrank, hwithin⟩

/-! ## Powers of ten -/

theorem attains_powNat_ten (n : ℕ) : Attains n ((ofNat 10).powNat n) (10 ^ n) := by
  have hattains : Attains n ((ofNat 10).powNat n) _ := attains_powNat ⟨by decide, by decide⟩ n
  rwa [Nat.cast_ofNat] at hattains

/-- The powers of ten up to `10 ^ 308` do not overflow. -/
theorem exists_powNat_ten {n : ℕ} (hn : n ≤ 308) :
    ∃ rank : Fin rankCount, (ofNat 10).powNat n = finite false rank ∧
      unitsPerOne ≤ unitsOfRank rank ∧
      Within n ((unitsOfRank rank : ℚ) / (unitsPerOne : ℚ)) (10 ^ n) := by
  have hroom : (10 ^ 308 * (10 ^ 12 + 1) : ℕ) < 2 ^ 1024 * 10 ^ 12 := by decide +kernel
  have hspread : spread ^ n ≤ 1 + 1 / 10 ^ 12 := spread_pow_le (hn.trans (by decide))
  have hlt : (10 : ℚ) ^ n * spread ^ n < 2 ^ 1024 := by
    have hroom : (10 : ℚ) ^ 308 * (10 ^ 12 + 1) < 2 ^ 1024 * 10 ^ 12 := by exact_mod_cast hroom
    have hpower : (10 : ℚ) ^ n ≤ 10 ^ 308 := pow_le_pow_right₀ (by norm_num) hn
    refine (mul_le_mul hpower hspread (spread_pow_pos n).le (by positivity)).trans_lt ?_
    generalize (10 : ℚ) ^ 308 = power at *
    generalize (2 : ℚ) ^ 1024 = limit at *
    linarith
  exact (attains_powNat_ten n).exists_rank hlt

/-- From `10 ^ 309` on the powers of ten overflow. -/
theorem powNat_ten_of_lt {n : ℕ} (hn : 308 < n) : (ofNat 10).powNat n = infinity false := by
  have hattains := attains_powNat_ten n
  generalize (ofNat 10).powNat n = x at hattains
  cases hattains with
  | overflow hle => rfl
  | @near rank _ hone hwithin =>
    -- The roundings of the factors behind the 309th are less than these factors.
    exfalso
    obtain ⟨m, rfl⟩ := Nat.exists_eq_add_of_le hn
    have hspread : spread ^ 309 ≤ 2 := (spread_pow_le (by decide)).trans (by norm_num)
    have hfactors : spread ^ m ≤ 10 ^ m :=
      pow_le_pow_left₀ (zero_lt_one.trans one_lt_spread).le
        (by rw [spread, cast_binadeSize]; norm_num) m
    have hle : (10 : ℚ) ^ 309 * spread ^ m ≤ 2 * greatest * spread ^ m :=
      calc (10 : ℚ) ^ 309 * spread ^ m ≤ 10 ^ 309 * 10 ^ m :=
            mul_le_mul_of_nonneg_left hfactors (by positivity)
        _ = 10 ^ (308 + 1 + m) := (pow_add _ _ _).symm
        _ ≤ greatest * spread ^ (308 + 1 + m) :=
            hwithin.le_mul.trans (mul_le_mul_of_nonneg_right
              (div_unitsPerOne_le_greatest rank) (spread_pow_pos _).le)
        _ = greatest * spread ^ 309 * spread ^ m := by rw [pow_add, mul_assoc]
        _ ≤ 2 * greatest * spread ^ m := by
            refine mul_le_mul_of_nonneg_right ?_ (spread_pow_pos m).le
            rw [mul_comm]
            exact mul_le_mul_of_nonneg_right hspread greatest_nonneg
    exact absurd (le_of_mul_le_mul_right hle (spread_pow_pos m)) (not_le.2 two_mul_greatest_lt)

end Double

end RadixCalc
