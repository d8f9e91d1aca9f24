import RadixCalc.Formula.Builtin.Value
import RadixCalc.Proofs.Double.Powers
import RadixCalc.Proofs.Double.Truncated

/-!
# Rounding to decimal places

`round` scales its argument by a power of ten, rounds to a whole number and scales back. Three
roundings are behind the scaled argument, the result and the power, but on the scale of the whole
number they are small against the half that separates it from the scaled argument. What is not small
is an overflow: of the power, from 309 places on, and of a scaled value.

* `Double.RoundedFrom` is one rounding among all magnitudes, `Double.mul_cases` and
  `Double.div_cases` are the operations with it, `Double.exists_roundHalfAway` the whole number.
* `Double.abs_sub_le_of_places` adds the errors up.
* `Double.roundTo_eq_of_nonneg` and `Double.roundTo_eq_of_neg` say what is computed for places as
  words; only the least word cannot be negated.
* `Double.roundTo_of_nonneg` and `Double.roundTo_of_neg` are the two directions,
  `Double.roundTo_of_lt` the powers that overflow.
* `Builtin.value_round_near_iff` says when the result lies near the argument.
-/

namespace RadixCalc

namespace Double

-- The number of units in one is never to be computed.
attribute [local irreducible] unitsPerOne

/-! ## One rounding -/

/-- The magnitude at a rank. -/
def magnitudeOf (rank : ℕ) : ℚ :=
  unitsOfRank rank / unitsPerOne

theorem magnitudeOf_nonneg (rank : ℕ) : 0 ≤ magnitudeOf rank :=
  div_nonneg (Nat.cast_nonneg _) cast_unitsPerOne_pos.le

theorem magnitudeOf_le_greatest (rank : Fin rankCount) : magnitudeOf rank ≤ greatest :=
  div_unitsPerOne_le_greatest rank

theorem magnitudeOf_eq_natCast {rank n : ℕ} (h : unitsOfRank rank = n * unitsPerOne) :
    magnitudeOf rank = n := by
  rw [magnitudeOf, h, Nat.cast_mul, mul_div_cancel_right₀ _ cast_unitsPerOne_pos.ne']

/-- Half the smallest magnitude. -/
def halfUnit : ℚ :=
  1 / 2 / unitsPerOne

/-- The value that one rounding makes of another: among the smallest magnitudes it differs by half a
unit at most, and elsewhere by one part in `2 ^ 53`. -/
def RoundedFrom (v y : ℚ) : Prop :=
  |v - y| ≤ y / 2 ^ 53 + halfUnit

/-- Nothing is rounded to nothing. -/
theorem RoundedFrom.eq_zero {rank : ℕ} (h : RoundedFrom (magnitudeOf rank) 0) :
    magnitudeOf rank = 0 := by
  rw [RoundedFrom, sub_zero, abs_of_nonneg (magnitudeOf_nonneg rank), zero_div, zero_add,
    halfUnit, magnitudeOf, div_le_div_iff_of_pos_right cast_unitsPerOne_pos,
    le_div_iff₀ two_pos] at h
  have hunits : unitsOfRank rank = 0 := by
    have hle : unitsOfRank rank * 2 ≤ 1 := by exact_mod_cast h
    omega
  rw [magnitudeOf, hunits, Nat.cast_zero, zero_div]

section Quotient

variable (num : ℕ) {den : ℕ} (hden : 0 < den)

include hden

theorem roundedFrom_nearestRank :
    RoundedFrom (magnitudeOf (nearestRank num den))
      ((num : ℚ) / ((den * unitsPerOne : ℕ) : ℚ)) := by
  have hunit := cast_unitsPerOne_pos
  have hnonneg : (0 : ℚ) ≤ num / den := by positivity
  have herror : |(unitsOfRank (nearestRank num den) : ℚ) - num / den| ≤
      num / den / 2 ^ 53 + 1 / 2 := by
    rcases (isClosest_nearestRank num hden).near with hhalf | hpart
    · exact hhalf.trans (le_add_of_nonneg_left (by positivity))
    · exact hpart.trans (le_add_of_nonneg_right (by positivity))
  rw [RoundedFrom, magnitudeOf, Nat.cast_mul, ← div_div, ← sub_div, abs_div, abs_of_pos hunit,
    halfUnit, div_right_comm _ (unitsPerOne : ℚ), ← add_div]
  exact div_le_div_of_nonneg_right herror hunit.le

/-- A quotient is rounded once, or it lies beyond the greatest magnitude and overflows. -/
theorem ofUnits_cases (negative : Bool) :
    (∃ rank : Fin rankCount, ofUnits negative num den = finite negative rank ∧
      RoundedFrom (magnitudeOf rank) ((num : ℚ) / ((den * unitsPerOne : ℕ) : ℚ))) ∨
    ofUnits negative num den = infinity negative ∧
      greatest < (num : ℚ) / ((den * unitsPerOne : ℕ) : ℚ) := by
  rw [ofUnits, ofRank]
  split
  · exact .inl ⟨_, rfl, roundedFrom_nearestRank num hden⟩
  · next hrank =>
    refine .inr ⟨rfl, ?_⟩
    by_contra hle
    rw [greatest, not_lt, Nat.cast_mul, ← div_div,
      div_le_div_iff_of_pos_right cast_unitsPerOne_pos, div_le_iff₀ (Nat.cast_pos.2 hden)] at hle
    obtain ⟨rank, hfinite, -⟩ := exists_ofUnits hden (by exact_mod_cast hle) negative
    rw [ofUnits, ofRank, dif_neg hrank] at hfinite
    cases hfinite

end Quotient

section Operations

variable (negative : Bool) (a : Fin rankCount) {b : Fin rankCount}

theorem mul_cases :
    (∃ rank : Fin rankCount, finite negative a * finite false b = finite negative rank ∧
      RoundedFrom (magnitudeOf rank) (magnitudeOf a * magnitudeOf b)) ∨
    finite negative a * finite false b = infinity negative ∧
      greatest < magnitudeOf a * magnitudeOf b := by
  have hvalue : magnitudeOf a * magnitudeOf b =
      ((unitsOfRank a * unitsOfRank b : ℕ) : ℚ) / ((unitsPerOne * unitsPerOne : ℕ) : ℚ) := by
    rw [magnitudeOf, magnitudeOf, Nat.cast_mul, Nat.cast_mul, mul_div_mul_comm]
  rw [finite_mul_finite, Bool.bne_false, hvalue]
  exact ofUnits_cases _ unitsPerOne_pos negative

theorem div_cases (hb : unitsOfRank b ≠ 0) :
    (∃ rank : Fin rankCount, finite negative a / finite false b = finite negative rank ∧
      RoundedFrom (magnitudeOf rank) (magnitudeOf a / magnitudeOf b)) ∨
    finite negative a / finite false b = infinity negative ∧
      greatest < magnitudeOf a / magnitudeOf b := by
  have hunit := cast_unitsPerOne_pos.ne'
  have hvalue : magnitudeOf a / magnitudeOf b =
      ((unitsOfRank a * unitsPerOne : ℕ) : ℚ) / ((unitsOfRank b * unitsPerOne : ℕ) : ℚ) := by
    rw [magnitudeOf, magnitudeOf, div_div_div_cancel_right₀ hunit, Nat.cast_mul, Nat.cast_mul,
      mul_div_mul_right _ _ hunit]
  rw [finite_div_finite _ _ _ _ (rank_ne_zero hb), Bool.bne_false, hvalue]
  exact ofUnits_cases _ (Nat.pos_of_ne_zero hb) negative

end Operations

/-- The nearest whole number is a double, because it has no more bits than the number rounded. -/
theorem exists_roundHalfAway (negative : Bool) (rank : Fin rankCount) :
    ∃ (n : ℕ) (whole : Fin rankCount),
      (finite negative rank).roundHalfAway = finite negative whole ∧ magnitudeOf whole = n ∧
      |(n : ℚ) - magnitudeOf rank| ≤ 1 / 2 := by
  have hfloor := divNearestUp_eq_floor (unitsOfRank rank) unitsPerOne_pos
  have hnonneg := magnitudeOf_nonneg rank
  have hle := Nat.floor_le (add_nonneg hnonneg (by norm_num : (0 : ℚ) ≤ 1 / 2))
  have hlt := Nat.lt_floor_add_one (magnitudeOf rank + 1 / 2)
  rw [magnitudeOf, ← hfloor, ← magnitudeOf] at hle hlt
  have hbelow : divNearestUp (unitsOfRank rank) unitsPerOne < 2 ^ 1024 := by
    have htop : (2 * binadeSize - 1) * 2 ^ 971 + 1 < 2 ^ 1024 := by decide +kernel
    refine lt_of_le_of_lt ?_ htop
    have hgreatest := magnitudeOf_le_greatest rank
    have hcast : (divNearestUp (unitsOfRank rank) unitsPerOne : ℚ) ≤
        (((2 * binadeSize - 1) * 2 ^ 971 : ℕ) : ℚ) + 1 := by
      rw [← greatest_eq]
      linarith
    exact_mod_cast hcast
  obtain ⟨whole, hwhole, hunits⟩ :=
    (isShort_unitsOfRank rank).divNearestUp.exists_ofNat hbelow
  refine ⟨_, whole, ?_, magnitudeOf_eq_natCast hunits, ?_⟩
  · rw [roundHalfAway, toWhole, ← hunits, ofUnits_unitsOfRank]
  · rw [abs_le]
    constructor <;> linarith

/-! ## The errors added up -/

section Errors

variable {x s t y r : ℚ} {n : ℕ}

/-- The scale differs from the power of ten by few roundings only, and half a unit is still small
when it is scaled. -/
structure IsScale (s t : ℚ) : Prop where
  pos : 0 < s
  le_mul : s ≤ t * (1 + 1 / 10 ^ 13)
  mul_le : t ≤ s * (1 + 1 / 10 ^ 13)
  small : halfUnit * s ≤ 1 / 10 ^ 14

theorem halfUnit_le : halfUnit ≤ 1 / 10 ^ 14 := by
  have hpow : (2 : ℚ) ^ 47 ≤ unitsPerOne := by
    rw [unitsPerOne_eq, Nat.cast_pow]
    exact pow_le_pow_right₀ one_le_two (by decide)
  rw [halfUnit, div_le_div_iff₀ cast_unitsPerOne_pos (by norm_num)]
  linarith

namespace IsScale

variable (hs : IsScale s t)

include hs

theorem power_pos : 0 < t :=
  pos_of_mul_pos_left (hs.pos.trans_le hs.le_mul) (by norm_num)

/-- What is scaled with the power of ten is hardly greater than scaled with the scale. -/
theorem mul_power_le {d : ℚ} (hd : 0 ≤ d) : d * t ≤ d * s * (1 + 1 / 10 ^ 13) := by
  rw [mul_assoc]
  exact mul_le_mul_of_nonneg_left hs.mul_le hd

theorem mul_scale_le {d : ℚ} (hd : 0 ≤ d) : d * s ≤ d * t * (1 + 1 / 10 ^ 13) := by
  rw [mul_assoc]
  exact mul_le_mul_of_nonneg_left hs.le_mul hd

end IsScale

/-- The result and the argument, on the scale of the whole number between them. -/
theorem abs_sub_mul_le (hs : IsScale s t) (hy : RoundedFrom y (x * s)) (hn : |(n : ℚ) - y| ≤ 1 / 2)
    (hr : RoundedFrom r (n / s)) :
    |r - x| * s ≤ 1 / 2 + (n / 2 ^ 53 + x * s / 2 ^ 53 + 2 / 10 ^ 14) := by
  have hback : |r * s - n| ≤ n / 2 ^ 53 + 1 / 10 ^ 14 :=
    calc |r * s - n| = |r - n / s| * s := by
          rw [← abs_of_pos hs.pos, ← abs_mul, abs_of_pos hs.pos, sub_mul,
            div_mul_cancel₀ _ hs.pos.ne']
      _ ≤ (n / s / 2 ^ 53 + halfUnit) * s := mul_le_mul_of_nonneg_right hr hs.pos.le
      _ = n / 2 ^ 53 + halfUnit * s := by
          rw [add_mul, div_right_comm, div_mul_cancel₀ _ hs.pos.ne']
      _ ≤ n / 2 ^ 53 + 1 / 10 ^ 14 := add_le_add le_rfl hs.small
  have hunit := halfUnit_le
  rw [RoundedFrom] at hy
  calc |r - x| * s = |(r * s - n) + (n - y) + (y - x * s)| := by
        rw [← abs_of_pos hs.pos, ← abs_mul, abs_of_pos hs.pos]
        congr 1
        ring
    _ ≤ |r * s - n| + |(n : ℚ) - y| + |y - x * s| :=
        (abs_add_le _ _).trans (add_le_add (abs_add_le _ _) le_rfl)
    _ ≤ 1 / 2 + (n / 2 ^ 53 + x * s / 2 ^ 53 + 2 / 10 ^ 14) := by linarith

/-- The scaled value is half away from the whole number at most, and a rounding or two. -/
theorem abs_sub_le_of_places (hx : 0 ≤ x) (hs : IsScale s t) (hy : RoundedFrom y (x * s))
    (hn : |(n : ℚ) - y| ≤ 1 / 2) (hr : RoundedFrom r (n / s)) (hzero : n = 0 → r = 0) :
    |r - x| ≤ 1 / t / 2 + 1 / 10 ^ 12 * x := by
  have hscaled : |r - x| * t ≤ 1 / 2 + 1 / 10 ^ 12 * (x * t) := by
    have hup := hs.mul_power_le hx
    have hdown := hs.mul_scale_le hx
    have hunit := halfUnit_le
    obtain ⟨hlow, hhigh⟩ := abs_le.1 hy
    rcases Nat.eq_zero_or_pos n with rfl | hpos
    · -- Nothing is left, and the scaled argument was hardly more than a half.
      rw [hzero rfl, zero_sub, abs_neg, abs_of_nonneg hx]
      obtain ⟨hn, -⟩ := abs_le.1 hn
      rw [Nat.cast_zero] at hn
      linarith
    · -- From one half on the part of the argument pays for the roundings.
      have hone : (1 : ℚ) ≤ n := Nat.one_le_cast.2 hpos
      have hsum := abs_sub_mul_le hs hy hn hr
      have hupper := hs.mul_power_le (abs_nonneg (r - x))
      obtain ⟨hn, hn'⟩ := abs_le.1 hn
      linarith
  have ht := hs.power_pos
  calc |r - x| = |r - x| * t / t := (mul_div_cancel_right₀ _ ht.ne').symm
    _ ≤ (1 / 2 + 1 / 10 ^ 12 * (x * t)) / t := div_le_div_of_nonneg_right hscaled ht.le
    _ = 1 / t / 2 + 1 / 10 ^ 12 * x := by field_simp

end Errors

/-! ## The scales -/

theorem greatest_lt_two_pow : greatest < 2 ^ 1024 := by
  have hlt : (2 * binadeSize - 1) * 2 ^ 971 < 2 ^ 1024 := by decide +kernel
  rw [greatest_eq]
  exact_mod_cast hlt

theorem halfUnit_mul_le (rank : Fin rankCount) : halfUnit * magnitudeOf rank ≤ 1 / 10 ^ 14 := by
  have hunits : (unitsPerOne : ℚ) = 2 ^ 1024 * 2 ^ 50 := by
    rw [unitsPerOne_eq, Nat.cast_pow, Nat.cast_two, ← pow_add, unitHalvings]
  have hlt := (magnitudeOf_le_greatest rank).trans_lt greatest_lt_two_pow
  have hpos : (0 : ℚ) < 2 ^ 1024 := by positivity
  rw [halfUnit, div_mul_eq_mul_div, div_le_iff₀ cast_unitsPerOne_pos, hunits]
  generalize (2 : ℚ) ^ 1024 = limit at *
  linarith

/-- Between the overflow and the values near its bound there is room for a whole number to be
rounded up by a half and scaled with the greatest power of ten. -/
theorem two_pow_add_le_greatest :
    2 ^ 1023 * (1 + 1 / 10 ^ 13) + 3 / 4 * 10 ^ 308 ≤ greatest := by
  have hle : 2 ^ 1023 * (10 ^ 13 + 1) * 4 + 3 * 10 ^ 308 * 10 ^ 13 ≤
      (2 * binadeSize - 1) * 2 ^ 971 * 4 * 10 ^ 13 := by decide +kernel
  have hcast : (2 : ℚ) ^ 1023 * (10 ^ 13 + 1) * 4 + 3 * 10 ^ 308 * 10 ^ 13 ≤
      greatest * 4 * 10 ^ 13 := by
    rw [greatest_eq]
    exact_mod_cast hle
  generalize (2 : ℚ) ^ 1023 = bound at *
  generalize (10 : ℚ) ^ 308 = power at *
  linarith

section Scales

variable {n : ℕ} (hn : n ≤ 308)

include hn

theorem isScale_of_within {s t : ℚ} (hs : 0 < s) (h : Within n s t)
    (hsmall : halfUnit * s ≤ 1 / 10 ^ 14) : IsScale s t := by
  have hspread : spread ^ n ≤ 1 + 1 / 10 ^ 13 := by
    have hcast : (n : ℚ) ≤ 308 := by exact_mod_cast hn
    apply spread_pow_le_one_add (by norm_num)
    rw [cast_binadeSize]
    linarith
  have ht : 0 ≤ t := nonneg_of_mul_nonneg_left (hs.le.trans h.mul_le) (spread_pow_pos n)
  exact ⟨hs, h.mul_le.trans (mul_le_mul_of_nonneg_left hspread ht),
    h.le_mul.trans (mul_le_mul_of_nonneg_left hspread hs.le), hsmall⟩

/-- The power of ten that is computed is a scale, and so is its inverse. -/
theorem exists_scale :
    ∃ b : Fin rankCount, (ofNat 10).powNat n = finite false b ∧ unitsOfRank b ≠ 0 ∧
      1 ≤ magnitudeOf b ∧ IsScale (magnitudeOf b) (10 ^ n) ∧
      IsScale (magnitudeOf b)⁻¹ (10 ^ n)⁻¹ := by
  obtain ⟨b, hpower, hunits, hwithin⟩ := exists_powNat_ten hn
  have hone : 1 ≤ magnitudeOf b := (one_le_div cast_unitsPerOne_pos).2 (Nat.cast_le.2 hunits)
  have hpos : 0 < magnitudeOf b := zero_lt_one.trans_le hone
  refine ⟨b, hpower, (unitsPerOne_pos.trans_le hunits).ne', hone, ?_, ?_⟩
  · exact isScale_of_within hn hpos hwithin (halfUnit_mul_le b)
  · refine isScale_of_within hn (inv_pos.2 hpos) (hwithin.inv (by positivity)) ?_
    have hunit : 0 ≤ halfUnit := div_nonneg one_half_pos.le (Nat.cast_nonneg _)
    exact (mul_le_of_le_one_right hunit (inv_le_one_of_one_le₀ hone)).trans halfUnit_le

end Scales

/-! ## Places as words -/

section Words

variable {n : ℕ}

theorem powerOfTen_of_nonneg {exponent : Int32} (h : exponent.toInt = n) :
    powerOfTen exponent = (ofNat 10).powNat n := by
  have hsign : ¬exponent < 0 := by
    rw [Int32.lt_iff_toInt_lt, h]
    exact not_lt.2 (Int.natCast_nonneg n)
  simp only [powerOfTen, if_neg hsign, h, Int.natAbs_natCast]

/-- With digits kept behind the point the argument is scaled up. -/
theorem roundTo_eq_of_nonneg {places : Double} (h : places.toPlaces.toInt = n) (x : Double) :
    x.roundTo places = (x * (ofNat 10).powNat n).roundHalfAway / (ofNat 10).powNat n := by
  have hsign : ¬places.toPlaces < 0 := by
    rw [Int32.lt_iff_toInt_lt, h]
    exact not_lt.2 (Int.natCast_nonneg n)
  simp only [roundTo, if_neg hsign, powerOfTen_of_nonneg h]

/-- With digits before the point dropped it is scaled down, if the places can be negated. -/
theorem roundTo_eq_of_neg {places : Double} (h : places.toPlaces.toInt = -n) (hpos : n ≠ 0)
    (hlt : n < 2 ^ 31) (x : Double) :
    x.roundTo places = (x / (ofNat 10).powNat n).roundHalfAway * (ofNat 10).powNat n := by
  have hsign : places.toPlaces < 0 := by
    rw [Int32.lt_iff_toInt_lt, h, Int32.toInt_zero]
    omega
  have hneg : (-places.toPlaces).toInt = n := by
    rw [Int32.toInt_neg, h, neg_neg, Int.bmod_eq_of_le (by omega) (by omega)]
  simp only [roundTo, if_pos hsign, roundToMultiple, powerOfTen_of_nonneg hneg]

end Words

/-! ## The two directions -/

section Directions

variable {places : Double} {n : ℕ} (hn : n ≤ 308) (negative : Bool) (a : Fin rankCount)

include hn

/-- With digits kept behind the point only the scaled argument can overflow. -/
theorem roundTo_of_nonneg (hplaces : places.toPlaces.toInt = n) :
    (∃ rank : Fin rankCount, (finite negative a).roundTo places = finite negative rank ∧
      |magnitudeOf rank - magnitudeOf a| ≤ 1 / 10 ^ n / 2 + 1 / 10 ^ 12 * magnitudeOf a ∧
      magnitudeOf a * 10 ^ n < 2 ^ 1025) ∨
    (finite negative a).roundTo places = infinity negative ∧
      2 ^ 1023 < magnitudeOf a * 10 ^ n := by
  obtain ⟨b, hpower, hb, hone, hscale, -⟩ := exists_scale hn
  have ha := magnitudeOf_nonneg a
  have hdown := hscale.mul_power_le ha
  have hup := hscale.mul_scale_le ha
  rw [roundTo_eq_of_nonneg hplaces, hpower]
  rcases mul_cases negative a (b := b) with ⟨y, hproduct, hy⟩ | ⟨hproduct, hover⟩
  · obtain ⟨m, whole, hround, hwhole, hhalf⟩ := exists_roundHalfAway negative y
    have hgreatest := magnitudeOf_le_greatest whole
    rw [hproduct, hround]
    rcases div_cases negative whole hb with ⟨r, hquotient, hr⟩ | ⟨-, hover⟩
    · left
      rw [hwhole] at hr
      refine ⟨r, hquotient, abs_sub_le_of_places ha hscale hy hhalf hr ?_, ?_⟩
      · rintro rfl
        rw [Nat.cast_zero, zero_div] at hr
        exact hr.eq_zero
      · have hunit := halfUnit_le
        have hlimit : (1 : ℚ) ≤ 2 ^ 1024 := one_le_pow₀ one_le_two
        have hlt := (magnitudeOf_le_greatest y).trans_lt greatest_lt_two_pow
        obtain ⟨hlow, -⟩ := abs_le.1 hy
        calc magnitudeOf a * 10 ^ n < 2 * 2 ^ 1024 := by
              generalize (2 : ℚ) ^ 1024 = limit at *
              linarith
          _ = 2 ^ 1025 := (pow_succ' 2 1024).symm
    · exact absurd hover (not_lt.2 ((div_le_self (magnitudeOf_nonneg _) hone).trans hgreatest))
  · right
    have hroom := two_pow_add_le_greatest
    have hpower : (0 : ℚ) < 10 ^ 308 := by positivity
    rw [hproduct]
    refine ⟨by rw [roundHalfAway, toWhole, infinity_div_finite, Bool.bne_false], ?_⟩
    generalize (2 : ℚ) ^ 1023 = bound at *
    generalize (10 : ℚ) ^ 308 = power at *
    linarith

/-- With digits before the point dropped only the result can overflow. -/
theorem roundTo_of_neg (hplaces : places.toPlaces.toInt = -n) (hpos : n ≠ 0) :
    (∃ rank : Fin rankCount, (finite negative a).roundTo places = finite negative rank ∧
      |magnitudeOf rank - magnitudeOf a| ≤ 10 ^ n / 2 + 1 / 10 ^ 12 * magnitudeOf a) ∨
    (finite negative a).roundTo places = infinity negative ∧ 2 ^ 1023 < magnitudeOf a := by
  obtain ⟨b, hpower, hb, hone, hscale, hinverse⟩ := exists_scale hn
  have ha := magnitudeOf_nonneg a
  rw [roundTo_eq_of_neg hplaces hpos (by omega), hpower]
  rcases div_cases negative a hb with ⟨y, hquotient, hy⟩ | ⟨-, hover⟩
  · obtain ⟨m, whole, hround, hwhole, hhalf⟩ := exists_roundHalfAway negative y
    rw [hquotient, hround]
    rw [div_eq_mul_inv] at hy
    rcases mul_cases negative whole (b := b) with ⟨r, hproduct, hr⟩ | ⟨hproduct, hover⟩
    · left
      rw [hwhole, ← div_inv_eq_mul] at hr
      have hnear := abs_sub_le_of_places ha hinverse hy hhalf hr (by
        rintro rfl
        rw [Nat.cast_zero, zero_div] at hr
        exact hr.eq_zero)
      rw [one_div, inv_inv] at hnear
      exact ⟨r, hproduct, hnear⟩
    · right
      have hroom := two_pow_add_le_greatest
      have hsmall := halfUnit_mul_le b
      have hscale := hscale.le_mul.trans
        (mul_le_mul_of_nonneg_right (pow_le_pow_right₀ (by norm_num) hn) (by norm_num))
      obtain ⟨-, hhigh⟩ := abs_le.1 hy
      obtain ⟨-, hhalf⟩ := abs_le.1 hhalf
      have hne : magnitudeOf b ≠ 0 := (zero_lt_one.trans_le hone).ne'
      have hback : (m : ℚ) * magnitudeOf b ≤
          magnitudeOf a + magnitudeOf a / 2 ^ 53 + (halfUnit + 1 / 2) * magnitudeOf b :=
        calc (m : ℚ) * magnitudeOf b
            ≤ (magnitudeOf a * (magnitudeOf b)⁻¹ + magnitudeOf a * (magnitudeOf b)⁻¹ / 2 ^ 53 +
                (halfUnit + 1 / 2)) * magnitudeOf b :=
              mul_le_mul_of_nonneg_right (by linarith) (zero_le_one.trans hone)
          _ = _ := by field_simp
      rw [hwhole] at hover
      refine ⟨hproduct, ?_⟩
      have hpower : (1 : ℚ) ≤ 10 ^ 308 := one_le_pow₀ (by norm_num)
      generalize (2 : ℚ) ^ 1023 = bound at *
      generalize (10 : ℚ) ^ 308 = power at *
      linarith
  · have hle := (div_le_self ha hone).trans (magnitudeOf_le_greatest a)
    exact absurd hover (not_lt.2 hle)

end Directions

theorem roundHalfAway_zero (negative : Bool) : (zero negative).roundHalfAway = zero negative := by
  have hunits : unitsOfRank 0 = 0 := by simp [unitsOfRank, significandOfRank]
  have hpos := unitsPerOne_pos
  have hwhole : divNearestUp 0 unitsPerOne = 0 := Nat.div_eq_of_lt (by omega)
  rw [roundHalfAway, zero, toWhole, hunits, hwhole, Nat.zero_mul]
  exact ofUnits_zero negative one_pos

/-- Scaled down by an overflowing power every number vanishes, and scaling back leaves no number. -/
theorem div_infinity_roundHalfAway_mul (negative : Bool) (a : Fin rankCount) :
    (finite negative a / infinity false).roundHalfAway * infinity false = nan := by
  have hvanishes : finite negative a / infinity false = zero (negative != false) := rfl
  rw [hvanishes, roundHalfAway_zero]
  rfl

/-- Scaled up by a power that overflows a number is infinite, and scaling back leaves no number. -/
theorem mul_infinity_roundHalfAway_div (negative : Bool) (a : Fin rankCount) :
    (finite negative a * infinity false).roundHalfAway / infinity false = nan := by
  by_cases ha : a.val = 0
  · have hproduct : finite negative a * infinity false = nan := if_pos ha
    rw [hproduct]
    rfl
  · have hproduct : finite negative a * infinity false = infinity (negative != false) := if_neg ha
    rw [hproduct]
    rfl

/-- A power of ten that overflows leaves no number. -/
theorem roundTo_of_lt {places : Double} {p : ℤ} (hplaces : places.toPlaces.toInt = p)
    (hp : p.natAbs < 2 ^ 31) (hover : 308 < p.natAbs) (negative : Bool) (a : Fin rankCount) :
    (finite negative a).roundTo places = nan := by
  rcases le_or_gt 0 p with hsign | hsign
  · obtain ⟨n, rfl⟩ := Int.eq_ofNat_of_zero_le hsign
    rw [Int.natAbs_natCast] at hover
    rw [roundTo_eq_of_nonneg hplaces, powNat_ten_of_lt hover, mul_infinity_roundHalfAway_div]
  · obtain ⟨n, rfl⟩ := Int.exists_eq_neg_ofNat hsign.le
    rw [Int.natAbs_neg, Int.natAbs_natCast] at hp hover
    rw [roundTo_eq_of_neg hplaces (by omega) hp, powNat_ten_of_lt hover,
      div_infinity_roundHalfAway_mul]

/-- Rounding to decimal places, in all cases. -/
theorem roundTo_cases {places : Double} {p : ℤ} (hplaces : places.toPlaces.toInt = p)
    (hp : p.natAbs < 2 ^ 31) (negative : Bool) (a : Fin rankCount) :
    308 < p.natAbs ∧ (finite negative a).roundTo places = nan ∨
    p.natAbs ≤ 308 ∧ (finite negative a).roundTo places = infinity negative ∧
      2 ^ 1023 < magnitudeOf a * 10 ^ p.toNat ∨
    p.natAbs ≤ 308 ∧ magnitudeOf a * 10 ^ p.toNat < 2 ^ 1025 ∧
      ∃ rank : Fin rankCount, (finite negative a).roundTo places = finite negative rank ∧
        |magnitudeOf rank - magnitudeOf a| ≤ 10 ^ (-p) / 2 + 1 / 10 ^ 12 * magnitudeOf a := by
  rcases Nat.lt_or_ge 308 p.natAbs with hover | hn
  · exact .inl ⟨hover, roundTo_of_lt hplaces hp hover negative a⟩
  right
  rcases le_or_gt 0 p with hsign | hsign
  · obtain ⟨n, rfl⟩ := Int.eq_ofNat_of_zero_le hsign
    rw [Int.natAbs_natCast] at hn
    rw [Int.natAbs_natCast, Int.toNat_natCast, zpow_neg, zpow_natCast, ← one_div]
    rcases roundTo_of_nonneg hn negative a hplaces with ⟨rank, hrank, hnear, hlt⟩ | hover
    · exact .inr ⟨hn, hlt, rank, hrank, hnear⟩
    · exact .inl ⟨hn, hover⟩
  · obtain ⟨n, rfl⟩ := Int.exists_eq_neg_ofNat hsign.le
    rw [Int.natAbs_neg, Int.natAbs_natCast] at hn
    rw [Int.natAbs_neg, Int.natAbs_natCast, Int.toNat_of_nonpos hsign.le, pow_zero, mul_one,
      neg_neg, zpow_natCast]
    rcases roundTo_of_neg hn negative a hplaces (by omega) with ⟨rank, hrank, hnear⟩ | hover
    · refine .inr ⟨hn, ?_, rank, hrank, hnear⟩
      refine ((magnitudeOf_le_greatest a).trans_lt greatest_lt_two_pow).trans ?_
      exact pow_lt_pow_right₀ one_lt_two (by decide)
    · exact .inl ⟨hn, hover⟩

/-! ## Under a sign -/

/-- The number lies as near to a value as rounding to decimal places is to leave it: half a unit of
the last place kept, and one part in `10 ^ 12` of the value. -/
def LiesNear (p : ℤ) (q : ℚ) (y : Double) : Prop :=
  ∃ v, y.toRat? = some v ∧ |v - q| ≤ 10 ^ (-p) / 2 + 1 / 10 ^ 12 * |q|

theorem abs_signed_sub (negative : Bool) (a b : ℕ) :
    |(signed negative (unitsOfRank a) : ℚ) / (unitsPerOne : ℚ) -
      (signed negative (unitsOfRank b) : ℚ) / (unitsPerOne : ℚ)| =
      |magnitudeOf a - magnitudeOf b| := by
  cases negative with
  | false => rfl
  | true =>
    have hsign : ∀ units : ℕ, (signed true units : ℚ) / (unitsPerOne : ℚ) =
        -((units : ℚ) / (unitsPerOne : ℚ)) := by
      intro units
      rw [signed, if_pos rfl, Int.cast_neg, Int.cast_natCast, neg_div]
    rw [hsign, hsign, neg_sub_neg, abs_sub_comm]
    rfl

/-- The places are the argument without its fraction, held within a word. -/
theorem isTruncation_toPlaces (places : Double) :
    IsTruncation (-2 ^ 31) (2 ^ 31 - 1) places places.toPlaces.toInt := by
  obtain ⟨hlow, hhigh⟩ :=
    toIntBetween_mem (-2 ^ 31) (2 ^ 31 - 1) (by decide) (by decide) places
  have hword : places.toPlaces.toInt = places.toIntBetween (-2 ^ 31) (2 ^ 31 - 1) :=
    Int32.toInt_ofInt_of_le hlow (Int.lt_of_le_sub_one hhigh)
  rw [hword]
  exact isTruncation_toIntBetween _ _ places

/-- A whole number of places is taken as it is. -/
theorem toInt_toPlaces {places : Double} {p : ℤ} (hplaces : places.toRat? = some (p : ℚ))
    (hp : p.natAbs < 2 ^ 31) : places.toPlaces.toInt = p :=
  (isTruncation_toPlaces places).eq_of_toRat? hplaces (by omega) (by omega)

theorem LiesNear.isFinite {p : ℤ} {q : ℚ} {y : Double} (h : LiesNear p q y) :
    y.isFinite = true := by
  obtain ⟨v, hv, -⟩ := h
  obtain ⟨negative, rank, rfl, -⟩ := exists_finite_of_toRat? hv
  rfl

end Double

namespace Builtin

open Double (LiesNear)

variable {x places : Double} {q : ℚ} {p : ℤ}

theorem value_round (x places : Double) : round.value [x, places] = x.roundTo places := rfl

/-- Rounding a number to decimal places leaves it near its value, unless something overflows on the
way. From 309 places on, of either sign, the power of ten overflows and the result is no number;
otherwise the number scaled up, or the result, can overflow to the infinity of its sign, which needs
a magnitude of `2 ^ 1023` and happens to the numbers scaled up to `2 ^ 1025`. -/
theorem value_round_near_iff (hx : x.toRat? = some q) (hplaces : places.toRat? = some (p : ℚ))
    (hp : p.natAbs < 2 ^ 31) :
    ∃ result, round.value [x, places] = result ∧
      (LiesNear p q result ↔ result.isFinite = true) ∧
      (result = .nan ↔ 308 < p.natAbs) ∧
      (∀ negative, result = .infinity negative →
        negative = decide (q < 0) ∧ 2 ^ 1023 < |q| * 10 ^ p.toNat) ∧
      (p.natAbs ≤ 308 → 2 ^ 1025 ≤ |q| * 10 ^ p.toNat → result = .infinity (decide (q < 0))) := by
  have htoPlaces := Double.toInt_toPlaces hplaces hp
  obtain ⟨negative, a, rfl, rfl⟩ := Double.exists_finite_of_toRat? hx
  refine ⟨_, rfl, ?_⟩
  have hmagnitude := Double.abs_signed_div negative (Double.unitsOfRank a)
  rw [← Double.magnitudeOf] at hmagnitude
  rw [hmagnitude]
  rw [value_round]
  rcases Double.roundTo_cases htoPlaces hp negative a with
    ⟨hover, hnan⟩ | ⟨hn, hinfinity, hlt⟩ | ⟨hn, hlt, rank, hrank, hnear⟩
  · rw [hnan]
    refine ⟨⟨LiesNear.isFinite, ?_⟩, iff_of_true rfl hover, ?_, ?_⟩
    · rintro ⟨⟩
    · rintro _ ⟨⟩
    · intro hn
      omega
  · have hsign : negative = decide ((Double.signed negative (Double.unitsOfRank a) : ℚ) /
        (Double.unitsPerOne : ℚ) < 0) := by
      have hunits : Double.unitsOfRank a ≠ 0 := by
        intro hzero
        rw [Double.magnitudeOf, hzero, Nat.cast_zero, zero_div, zero_mul] at hlt
        exact absurd hlt (not_lt.2 (by positivity))
      rw [Bool.eq_iff_iff, decide_eq_true_iff, Double.signed_div_neg_iff, and_iff_left hunits]
    rw [hinfinity, ← hsign]
    refine ⟨⟨LiesNear.isFinite, ?_⟩, ⟨?_, ?_⟩, ?_, ?_⟩
    · rintro ⟨⟩
    · rintro ⟨⟩
    · intro hover
      omega
    · rintro _ ⟨⟩
      exact ⟨rfl, hlt⟩
    · intro _ _
      rfl
  · rw [hrank]
    refine ⟨⟨LiesNear.isFinite, fun _ => ?_⟩, ⟨?_, ?_⟩, ?_, ?_⟩
    · refine ⟨_, Double.toRat?_finite negative rank, ?_⟩
      rw [Double.abs_signed_sub, hmagnitude]
      exact hnear
    · rintro ⟨⟩
    · intro hover
      omega
    · rintro _ ⟨⟩
    · intro _ hle
      exact absurd hlt (not_lt.2 hle)

/-- 1234 rounded to hundreds. -/
theorem value_round_near_iff_hundreds :
    (Double.ofInt 1234).toRat? = some ((1234 : ℤ) : ℚ) ∧
    (Double.ofInt (-2)).toRat? = some ((-2 : ℤ) : ℚ) ∧
    LiesNear (-2) ((1234 : ℤ) : ℚ) (round.value [.ofInt 1234, .ofInt (-2)]) := by
  have hx := Double.toRat?_ofInt (i := 1234) (by decide)
  have hplaces := Double.toRat?_ofInt (i := -2) (by decide)
  obtain ⟨result, hresult, hnear, hnan, hinfinity, -⟩ :=
    value_round_near_iff hx hplaces (by decide)
  rw [hresult]
  refine ⟨hx, hplaces, hnear.2 ?_⟩
  cases result with
  | nan => exact absurd (hnan.1 rfl) (by decide)
  | finite _ _ => rfl
  | infinity negative =>
    have hlt := (hinfinity negative rfl).2
    have hpow : (2 : ℚ) ^ 11 ≤ 2 ^ 1023 := pow_le_pow_right₀ one_le_two (by decide)
    have hmagnitude : |((1234 : ℤ) : ℚ)| * 10 ^ (-2 : ℤ).toNat ≤ 2 ^ 11 := by
      rw [Int.toNat_of_nonpos (by decide), pow_zero, mul_one, Int.cast_ofNat,
        abs_of_pos (by norm_num)]
      norm_num
    exact absurd hlt (not_lt.2 (hmagnitude.trans hpow))

/-- One rounded to 309 places is no number. -/
theorem value_round_overflowing :
    (Double.ofInt 1).toRat? = some ((1 : ℤ) : ℚ) ∧
    (Double.ofInt 309).toRat? = some ((309 : ℤ) : ℚ) ∧
    (round.value [.ofInt 1, .ofInt 309]).isFinite = false ∧
    ¬LiesNear 309 ((1 : ℤ) : ℚ) (round.value [.ofInt 1, .ofInt 309]) := by
  have hx := Double.toRat?_ofInt (i := 1) (by decide)
  have hplaces := Double.toRat?_ofInt (i := 309) (by decide)
  have hnan : round.value [.ofInt 1, .ofInt 309] = .nan := by
    obtain ⟨negative, a, ha, -⟩ := Double.exists_finite_of_toRat? hx
    have htoPlaces := Double.toInt_toPlaces hplaces (by decide)
    rw [value_round, ha]
    exact Double.roundTo_of_lt htoPlaces (by decide) (by decide) negative a
  rw [hnan]
  refine ⟨hx, hplaces, rfl, ?_⟩
  intro hnear
  exact Bool.false_ne_true hnear.isFinite

end Builtin

end RadixCalc
