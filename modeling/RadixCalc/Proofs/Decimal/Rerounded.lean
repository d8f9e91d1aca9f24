import RadixCalc.Proofs.Double.Closest

/-!
# Rounding again

A rounded value is stored as the double closest to it, and this double is rounded again. It need not
be the double from which the value came, but it lies no further away from the value than that one
did. So it is rounded to the same value, except perhaps below a power of ten, where the digits are
finer by a tenth; there the double must lie closer by as much.

* `Decimal.RoundsTo.of_closer` is the argument for values, with the exception as a hypothesis.
* `Double.IsClosest.sub_le_of_power` settles the exception for doubles: they are dense enough below
  every power of ten but one among the smallest magnitudes, and next to that one there happens to be
  a double.
* `Double.roundsTo_le_greatest` says that a double is not rounded beyond all others.
* `Double.significant_of_isClosest` puts this together.
-/

namespace RadixCalc

/-- What lies no further away is rounded to the same whole number. -/
theorem IsNearestEven.of_closer {n : ℕ} {y z : ℚ} (h : IsNearestEven n y)
    (hz : |(n : ℚ) - z| ≤ |(n : ℚ) - y|) : IsNearestEven n z := by
  refine ⟨hz.trans h.near, ?_⟩
  intro htie
  exact h.even (le_antisymm h.near (htie ▸ hz))

namespace Decimal

/-- A distance from a decimal, in units of its last place. -/
theorem abs_coefficient_sub (d : Decimal) (p : ℚ) :
    |(d.coefficient : ℚ) - p / 10 ^ d.exponent| = |p - d.toRat| / 10 ^ d.exponent := by
  rw [abs_sub_comm, abs_div_sub (zpow_ten_pos _), toRat]

theorem toRat_of_power {count : ℕ} (hcount : 0 < count) {d : Decimal}
    (h : d.coefficient = 10 ^ (count - 1)) : d.toRat = 10 ^ (d.exponent + count - 1) := by
  have hexponent : d.exponent + count - 1 = (count - 1 : ℕ) + d.exponent := by omega
  rw [toRat, h, hexponent, zpow_add₀ (by norm_num), zpow_natCast, Nat.cast_pow, Nat.cast_ofNat]

section Closer

variable {count : ℕ} {q p : ℚ} {d : Decimal} (hcount : 0 < count) (hd : HasDigits count d)

include hcount hd

/-- The digits of a rounded value are nearest to the value, also where a carry made one more of
them. -/
theorem RoundsTo.isNearestEven (hq : 0 < q) (h : RoundsTo count q d.toRat) :
    IsNearestEven d.coefficient (q / 10 ^ d.exponent) := by
  obtain ⟨n, hn, hvalue⟩ := h
  obtain ⟨hlow, hhigh⟩ := nearest_bounds hq hcount hn
  rcases hhigh.lt_or_eq with hlt | rfl
  · obtain rfl := hd.eq_of_toRat_eq (e := ⟨n, lastPlace count q⟩) ⟨hlow, hlt⟩ hvalue
    exact hn
  · have hmoved := RoundsTo.abs_sub_le ⟨_, hn, hvalue⟩
    have hpow : 10 ^ (count - 1) < 10 ^ count := Nat.pow_lt_pow_right (by decide) (by omega)
    rw [carry_eq hcount] at hvalue
    obtain rfl := hd.eq_of_toRat_eq ⟨le_rfl, hpow⟩ hvalue
    apply isNearestEven_of_lt
    have hplace := zpow_ten_pos (lastPlace count q)
    rw [abs_coefficient_sub, div_lt_iff₀ (zpow_ten_pos _), zpow_add_one₀ (by norm_num)]
    linarith

omit hd in
/-- Below a power of ten the digits are finer by a tenth. -/
theorem roundsTo_below_power (hfirst : d.coefficient = 10 ^ (count - 1)) (hp : p < d.toRat)
    (hgap : d.toRat - p ≤ 10 ^ (d.exponent - 1) / 2) : RoundsTo count p d.toRat := by
  have hvalue := toRat_of_power hcount hfirst
  have hfiner := zpow_ten_pos (d.exponent - 1)
  have hplaces : (10 : ℚ) ^ (d.exponent - 1) ≤ 10 ^ (d.exponent + count - 2) :=
    zpow_le_zpow_right₀ (by norm_num) (by omega)
  have htenth : d.toRat = 10 ^ (d.exponent + count - 2) * 10 := by
    rw [hvalue, ← zpow_add_one₀ (by norm_num)]
    ring_nf
  have hlow : (10 : ℚ) ^ (d.exponent + count - 2) ≤ p := by linarith
  have hlog : Int.log 10 p = d.exponent + count - 2 := by
    rw [log_eq_iff ((zpow_ten_pos _).trans_le hlow)]
    exact ⟨hlow, by rwa [zpow_add_one₀ (by norm_num), ← htenth]⟩
  have hlast : lastPlace count p = d.exponent - 1 := by
    rw [lastPlace, hlog]
    ring
  have hcarried : (⟨10 ^ count, d.exponent - 1⟩ : Decimal).toRat = d.toRat := by
    rw [toRat, carry_eq hcount, sub_add_cancel, ← hfirst]
  have hnear := abs_coefficient_sub ⟨10 ^ count, d.exponent - 1⟩ p
  rw [hcarried, abs_of_neg (by linarith : p - d.toRat < 0)] at hnear
  refine ⟨10 ^ count, ⟨?_, fun _ => Even.pow_of_ne_zero (by decide) hcount.ne'⟩, ?_⟩
  · rw [hlast, hnear, div_le_iff₀ hfiner]
    linarith
  · rw [hlast, ← hcarried, toRat]

/-- A value that is nearest to the digits of a decimal is rounded to it, if it lies close enough to
it where it has fallen below a power of ten. -/
theorem roundsTo_of_isNearestEven (h : IsNearestEven d.coefficient (p / 10 ^ d.exponent))
    (hpower : p < d.toRat → d.coefficient = 10 ^ (count - 1) →
      d.toRat - p ≤ 10 ^ (d.exponent - 1) / 2) : RoundsTo count p d.toRat := by
  have hplace := zpow_ten_pos d.exponent
  have hleast := toRat_of_power (d := ⟨10 ^ (count - 1), d.exponent⟩) hcount rfl
  rw [toRat] at hleast
  by_cases hbelow : p < 10 ^ (d.exponent + count - 1)
  · have hfirst : d.coefficient = 10 ^ (count - 1) := by
      refine le_antisymm (h.le_of_le ?_) hd.1
      rw [div_le_iff₀ hplace, hleast]
      exact hbelow.le
    have hp : p < d.toRat := by rwa [toRat_of_power hcount hfirst]
    exact roundsTo_below_power hcount hfirst hp (hpower hp hfirst)
  · have hlow := not_lt.1 hbelow
    have hhigh : p < 10 ^ (d.exponent + count) := by
      have hdigits : (d.coefficient : ℚ) + 1 ≤ 10 ^ count := by exact_mod_cast hd.2
      obtain ⟨hnear, -⟩ := abs_le.1 h.near
      rw [zpow_add₀ (by norm_num), zpow_natCast, mul_comm, ← div_lt_iff₀ hplace]
      linarith
    have hlog : Int.log 10 p = d.exponent + count - 1 := by
      rw [log_eq_iff ((zpow_ten_pos _).trans_le hlow), sub_add_cancel]
      exact ⟨hlow, hhigh⟩
    have hlast : lastPlace count p = d.exponent := by
      rw [lastPlace, hlog]
      ring
    exact ⟨d.coefficient, by rwa [hlast], by rw [hlast, toRat]⟩

/-- What lies no further away from the rounded value is rounded to it as well. -/
theorem RoundsTo.of_closer (hq : 0 < q) (h : RoundsTo count q d.toRat)
    (hcloser : |p - d.toRat| ≤ |q - d.toRat|)
    (hpower : p < d.toRat → d.toRat < q → d.coefficient = 10 ^ (count - 1) →
      d.toRat - p ≤ 10 ^ (d.exponent - 1) / 2) : RoundsTo count p d.toRat := by
  have hnearest : IsNearestEven d.coefficient (p / 10 ^ d.exponent) := by
    refine (h.isNearestEven hcount hd hq).of_closer ?_
    rw [abs_coefficient_sub, abs_coefficient_sub]
    exact div_le_div_of_nonneg_right hcloser (zpow_ten_pos _).le
  refine roundsTo_of_isNearestEven hcount hd hnearest ?_
  intro hp hfirst
  rcases lt_trichotomy q d.toRat with hlt | heq | hgt
  · -- Below a power of ten the value was rounded to the finer digits itself.
    have hplace : lastPlace count q ≤ d.exponent - 1 := by
      rw [toRat_of_power hcount hfirst] at hlt
      have hlog := log_lt_of_lt hq hlt
      rw [lastPlace]
      omega
    have hmoved := h.abs_sub_le
    have hfiner := zpow_le_zpow_right₀ (by norm_num : (1 : ℚ) ≤ 10) hplace
    rw [abs_of_neg (by linarith)] at hcloser
    linarith
  · rw [heq, sub_self, abs_zero] at hcloser
    exact absurd (sub_eq_zero.1 (abs_nonpos_iff.1 hcloser)) hp.ne
  · exact hpower hp hgt hfirst

end Closer

end Decimal

namespace Double

attribute [local irreducible] unitsPerOne

/-! ## Powers of ten among the smallest magnitudes -/

/-- Where the unit stands among the powers of ten. -/
theorem unit_bounds : (10 : ℚ) ^ (-324 : ℤ) < 1 / unitsPerOne ∧
    (1 : ℚ) / unitsPerOne ≤ 10 ^ (-323 : ℤ) / 2 := by
  have hbounds : 2 * 10 ^ 323 ≤ unitsPerOne ∧ unitsPerOne < 10 ^ 324 := by
    rw [unitsPerOne_eq]
    decide +kernel
  have hlow : (2 : ℚ) * 10 ^ 323 ≤ unitsPerOne := by exact_mod_cast hbounds.1
  have hhigh : (unitsPerOne : ℚ) < 10 ^ 324 := by exact_mod_cast hbounds.2
  rw [zpow_neg, zpow_neg, zpow_ofNat, zpow_ofNat]
  constructor
  · rw [← one_div]
    exact one_div_lt_one_div_of_lt cast_unitsPerOne_pos hhigh
  · rw [← one_div, div_div, mul_comm]
    exact one_div_le_one_div_of_le (by positivity) hlow

/-- Different whole numbers of units are a unit apart. -/
theorem one_div_le_sub {m n : ℕ} (h : (m : ℚ) / unitsPerOne < n / unitsPerOne) :
    (1 : ℚ) / unitsPerOne ≤ n / unitsPerOne - m / unitsPerOne := by
  have hlt := Nat.cast_lt.1 ((div_lt_div_iff_of_pos_right cast_unitsPerOne_pos).1 h)
  have hnext : (1 : ℚ) ≤ n - m := le_sub_iff_add_le'.2 (by exact_mod_cast hlt)
  rw [← sub_div]
  exact div_le_div_of_nonneg_right hnext cast_unitsPerOne_pos.le

theorem place_of_unit {e : ℤ} (hle : (1 : ℚ) / unitsPerOne ≤ 10 ^ e)
    (hfiner : ¬(1 : ℚ) / unitsPerOne ≤ 10 ^ (e - 1)) : e = -323 := by
  have hten : (1 : ℚ) < 10 := by norm_num
  have hpos := zpow_ten_pos (-323)
  obtain ⟨hlow, hhigh⟩ := unit_bounds
  have habove := (zpow_lt_zpow_iff_right₀ hten).1 (hlow.trans_le hle)
  have hbelow : (10 : ℚ) ^ (e - 1) < 10 ^ (-323 : ℤ) := by linarith
  have hbelow := (zpow_lt_zpow_iff_right₀ hten).1 hbelow
  omega

/-- The whole units in 1e-310. -/
def smallestPowerUnits : ℕ := 20240225330731

/-- There is hardly more than these in it. -/
theorem smallestPower_bounds : (smallestPowerUnits : ℚ) ≤ 10 ^ (-310 : ℤ) * unitsPerOne ∧
    (10 : ℚ) ^ (-310 : ℤ) * unitsPerOne ≤ smallestPowerUnits + 1 / 10 := by
  have hbounds : smallestPowerUnits * 10 ^ 310 ≤ unitsPerOne ∧
      10 * unitsPerOne ≤ (10 * smallestPowerUnits + 1) * 10 ^ 310 := by
    rw [unitsPerOne_eq]
    decide +kernel
  have hlow : (smallestPowerUnits : ℚ) * 10 ^ 310 ≤ unitsPerOne := by exact_mod_cast hbounds.1
  have hhigh : (10 : ℚ) * unitsPerOne ≤ (10 * smallestPowerUnits + 1) * 10 ^ 310 := by
    exact_mod_cast hbounds.2
  have hpower : (0 : ℚ) < 10 ^ 310 := by positivity
  rw [zpow_neg, zpow_ofNat, inv_mul_eq_div, le_div_iff₀ hpower, div_le_iff₀ hpower]
  generalize (10 : ℚ) ^ 310 = power at *
  exact ⟨hlow, by linarith⟩

/-- So the double closest to it lies close below it. -/
theorem sub_le_of_smallestPower {units : ℕ}
    (h : |(units : ℚ) - 10 ^ (-310 : ℤ) * unitsPerOne| ≤ 1 / 2) :
    (10 : ℚ) ^ (-310 : ℤ) - units / unitsPerOne ≤ 10 ^ (-324 : ℤ) / 2 := by
  obtain ⟨hlow, hhigh⟩ := smallestPower_bounds
  obtain ⟨habove, hbelow⟩ := abs_le.1 h
  have hclose : |(units : ℤ) - smallestPowerUnits| < 1 := by
    have hclose : |(units : ℚ) - smallestPowerUnits| < 1 := by
      rw [abs_lt]
      constructor <;> linarith
    exact_mod_cast hclose
  obtain rfl : units = smallestPowerUnits := by
    exact_mod_cast sub_eq_zero.1 (Int.abs_lt_one_iff.1 hclose)
  have hfiner : (10 : ℚ) ^ (-323 : ℤ) = 10 ^ (-324 : ℤ) * 10 := by
    rw [← zpow_add_one₀ (by norm_num)]
    norm_num
  calc (10 : ℚ) ^ (-310 : ℤ) - smallestPowerUnits / unitsPerOne
      = (10 ^ (-310 : ℤ) * unitsPerOne - smallestPowerUnits) * (1 / unitsPerOne) := by
        rw [sub_mul, mul_one_div, mul_one_div, mul_div_cancel_right₀ _ cast_unitsPerOne_pos.ne']
    _ ≤ 1 / 10 * (10 ^ (-323 : ℤ) / 2) :=
        mul_le_mul (by linarith) unit_bounds.2 (by positivity) (by norm_num)
    _ = 10 ^ (-324 : ℤ) / 2 := by
        rw [hfiner]
        ring

/-- The double closest to a power of ten, where it lies below it, is close enough to be rounded to
it. -/
theorem IsClosest.sub_le_of_power {units source : ℕ} {d : Decimal}
    (h : IsClosest units (d.toRat * unitsPerOne)) (hfirst : d.coefficient = 10 ^ 13)
    (hbelow : (units : ℚ) / unitsPerOne < d.toRat) (habove : d.toRat < (source : ℚ) / unitsPerOne)
    (hcloser : d.toRat - units / unitsPerOne ≤ source / unitsPerOne - d.toRat)
    (hmoved : (source : ℚ) / unitsPerOne - d.toRat ≤ 10 ^ d.exponent / 2) :
    d.toRat - units / unitsPerOne ≤ 10 ^ (d.exponent - 1) / 2 := by
  have hunit := cast_unitsPerOne_pos
  have hvalue : d.toRat = 10 ^ 14 * 10 ^ (d.exponent - 1) := by
    rw [Decimal.toRat, hfirst, ← sub_add_cancel d.exponent 1, zpow_add_one₀ (by norm_num),
      add_sub_cancel_right]
    push_cast
    ring
  have hscaled : d.toRat - units / unitsPerOne =
      |(units : ℚ) - d.toRat * unitsPerOne| / unitsPerOne := by
    rw [← abs_div_sub hunit, abs_of_neg (sub_neg.2 hbelow), neg_sub]
  rcases h.near with hnear | hnear
  · have hstep := one_div_le_sub (hbelow.trans habove)
    by_cases hfiner : (1 : ℚ) / unitsPerOne ≤ 10 ^ (d.exponent - 1)
    · have hhalf := div_le_div_of_nonneg_right hnear hunit.le
      rw [← hscaled, div_right_comm] at hhalf
      linarith
    · have hexponent := place_of_unit (by linarith) hfiner
      have hpower : d.toRat = 10 ^ (-310 : ℤ) := by
        rw [hvalue, hexponent, ← zpow_natCast, ← zpow_add₀ (by norm_num)]
        norm_num
      rw [hpower] at hnear ⊢
      rw [hexponent]
      exact sub_le_of_smallestPower hnear
  · have hpart := div_le_div_of_nonneg_right hnear hunit.le
    have hfiner := zpow_ten_pos (d.exponent - 1)
    rw [← hscaled, div_right_comm, mul_div_cancel_right₀ _ hunit.ne', hvalue] at hpart
    rw [hvalue]
    refine hpart.trans ?_
    linarith

/-! ## Doubles -/

/-- The fourteen digits of the greatest magnitude. -/
def greatestDigits : ℕ := 17976931348623

/-- They are rounded downwards, and the next lower powers of ten are not beyond it either. -/
theorem greatestDigits_bounds : (10 : ℚ) ^ (308 : ℤ) ≤ greatest ∧
    (greatestDigits : ℚ) * 10 ^ (295 : ℤ) ≤ greatest ∧
    greatest < (greatestDigits + 1 / 2) * 10 ^ (295 : ℤ) := by
  have hbounds : 10 ^ 308 ≤ (2 * binadeSize - 1) * 2 ^ 971 ∧
      greatestDigits * 10 ^ 295 ≤ (2 * binadeSize - 1) * 2 ^ 971 ∧
      2 * ((2 * binadeSize - 1) * 2 ^ 971) < (2 * greatestDigits + 1) * 10 ^ 295 := by
    decide +kernel
  rw [greatest_eq, zpow_ofNat, zpow_ofNat]
  generalize (2 * binadeSize - 1) * 2 ^ 971 = units at *
  obtain ⟨hpower, hdigits, hhalf⟩ := hbounds
  have hhalf : (2 : ℚ) * units < (2 * greatestDigits + 1) * 10 ^ 295 := by exact_mod_cast hhalf
  refine ⟨by exact_mod_cast hpower, by exact_mod_cast hdigits, ?_⟩
  generalize (10 : ℚ) ^ 295 = power at *
  linarith

/-- A double is not rounded beyond the greatest magnitude. -/
theorem roundsTo_le_greatest {q v : ℚ} (hq : 0 < q) (hle : q ≤ greatest)
    (h : Decimal.RoundsTo 14 q v) : v ≤ greatest := by
  obtain ⟨n, hn, rfl⟩ := h
  obtain ⟨hpower, hdigits, hhalf⟩ := greatestDigits_bounds
  have hplace : Decimal.lastPlace 14 q ≤ 295 := by
    have hlog := log_lt_of_lt hq (hle.trans_lt greatest_lt : q < 10 ^ (309 : ℤ))
    rw [Decimal.lastPlace]
    omega
  rcases hplace.lt_or_eq with hlt | heq
  · have hcount : n ≤ 10 ^ 14 := (Decimal.nearest_bounds hq (by decide) hn).2
    have hcount : (n : ℚ) ≤ 10 ^ 14 := by exact_mod_cast hcount
    calc (n : ℚ) * 10 ^ Decimal.lastPlace 14 q ≤ 10 ^ 14 * 10 ^ (294 : ℤ) :=
          mul_le_mul hcount (zpow_le_zpow_right₀ (by norm_num) (by omega)) (zpow_ten_pos _).le
            (by positivity)
      _ = 10 ^ (308 : ℤ) := by
          rw [← zpow_natCast, ← zpow_add₀ (by norm_num)]
          rfl
      _ ≤ greatest := hpower
  · rw [heq] at hn ⊢
    have hplace := zpow_ten_pos 295
    have hscaled : q / 10 ^ (295 : ℤ) < greatestDigits + 1 / 2 := by
      rw [div_lt_iff₀ hplace]
      exact hle.trans_lt hhalf
    have hcount : n ≤ greatestDigits := hn.le_of_lt hscaled
    exact (mul_le_mul_of_nonneg_right (Nat.cast_le.2 hcount) hplace.le).trans hdigits

/-- The double closest to a rounded double is rounded to the same decimal. -/
theorem significant_of_isClosest {rank units : ℕ} (hrank : unitsOfRank rank ≠ 0)
    (h : IsClosest units ((Decimal.significant 14 (unitsOfRank rank)).toRat * unitsPerOne)) :
    units ≠ 0 ∧ Decimal.significant 14 units = Decimal.significant 14 (unitsOfRank rank) := by
  have hcount : 0 < 14 := by decide
  have hdigits := Decimal.hasDigits_significant hrank hcount
  have hrounds := Decimal.roundsTo_significant hrank hcount
  have hsource := div_unitsPerOne_pos hrank
  generalize Decimal.significant 14 (unitsOfRank rank) = d at *
  have hcloser : |(units : ℚ) / unitsPerOne - d.toRat| ≤
      |(unitsOfRank rank : ℚ) / unitsPerOne - d.toRat| := by
    rw [abs_div_sub cast_unitsPerOne_pos, abs_div_sub cast_unitsPerOne_pos]
    exact div_le_div_of_nonneg_right (h.closest rank) cast_unitsPerOne_pos.le
  have hmoved : |(unitsOfRank rank : ℚ) / unitsPerOne - d.toRat| ≤ 10 ^ d.exponent / 2 := by
    have hnear := (hrounds.isNearestEven hcount hdigits hsource).near
    rw [Decimal.abs_coefficient_sub, div_le_iff₀ (zpow_ten_pos _)] at hnear
    linarith
  have hne : units ≠ 0 := by
    rintro rfl
    have hpos := Decimal.toRat_pos hdigits.coefficient_ne_zero
    have hlow := Decimal.zpow_exponent_le_toRat hdigits.coefficient_ne_zero
    have hplace := zpow_ten_pos d.exponent
    rw [Nat.cast_zero, zero_div, zero_sub, abs_neg, abs_of_pos hpos] at hcloser
    linarith
  have hagain : Decimal.RoundsTo 14 ((units : ℚ) / unitsPerOne) d.toRat := by
    refine hrounds.of_closer hcount hdigits hsource hcloser ?_
    intro hbelow habove hfirst
    rw [abs_of_neg (sub_neg.2 hbelow), abs_of_pos (sub_pos.2 habove), neg_sub] at hcloser
    rw [abs_of_pos (sub_pos.2 habove)] at hmoved
    exact h.sub_le_of_power hfirst hbelow habove hcloser hmoved
  refine ⟨hne, (Decimal.hasDigits_significant hne hcount).eq_of_toRat_eq hdigits ?_⟩
  exact (Decimal.roundsTo_significant hne hcount).unique hagain

end Double

end RadixCalc
