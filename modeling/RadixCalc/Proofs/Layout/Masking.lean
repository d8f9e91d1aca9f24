import RadixCalc.Proofs.Answer.FixedField
import RadixCalc.Proofs.Answer.Tolerance

/-!
# Masking

A fixed field keeps the low digits of a number and forgets the rest. What it keeps is a whole number
of units of the last digit, and in a bit radix that whole number and the power by which it is
divided have few significant bits. So the number in the field is exact, and it fits the field:
masking it again finds the same digits.

* `Layout.keptUnits` and `Layout.keptValue` say what is kept of a value, as a whole number of units
  and as a fraction; `Layout.mask_of_toRat?` says that the mask computes them.
* `Layout.mask_exact` says that neither the conversion nor the division rounds, and how far the
  number in the field is from the number masked.
* `Layout.mask_mask` says that masking twice is masking once.
-/

namespace RadixCalc.Layout

open Double (IsShort isShort_two_pow)

/-! ## What is kept -/

section Kept

variable (l : Layout) (q : ℚ)

/-- The digits that a fixed field keeps of a value, in units of the last digit. -/
def keptUnits : ℕ :=
  l.rounded q % l.base ^ (max l.integers 1 + l.fraction)

/-- The number that a fixed field keeps of a value. -/
def keptValue : ℚ :=
  (l.keptUnits q : ℚ) / (l.base : ℚ) ^ l.fraction

/-- Half a unit of the last digit behind the point, as the mask computes it. -/
def maskTolerance : Double :=
  if 0 < l.fraction then .one / (.ofNat 2 * .ofNat (l.base ^ l.fraction)) else .zero false

variable {l}

theorem keptUnits_of_lt (h : l.rounded q < l.base ^ (max l.integers 1 + l.fraction)) :
    l.keptUnits q = l.rounded q :=
  Nat.mod_eq_of_lt h

variable (hb : 0 < l.base)

include hb

theorem keptUnits_lt : l.keptUnits q < l.base ^ (max l.integers 1 + l.fraction) :=
  Nat.mod_lt _ (Nat.pow_pos hb)

theorem power_pos : (0 : ℚ) < (l.base : ℚ) ^ l.fraction :=
  pow_pos (Nat.cast_pos.2 hb) _

theorem keptValue_nonneg : 0 ≤ l.keptValue q :=
  div_nonneg (Nat.cast_nonneg _) (power_pos hb).le

/-- What is kept fits the digits before the point. -/
theorem keptValue_lt : l.keptValue q < (l.base : ℚ) ^ max l.integers 1 := by
  have hlt : ((l.keptUnits q : ℕ) : ℚ) < ((l.base ^ (max l.integers 1 + l.fraction) : ℕ) : ℚ) :=
    Nat.cast_lt.2 (keptUnits_lt q hb)
  rw [Nat.cast_pow, pow_add] at hlt
  rw [keptValue, div_lt_iff₀ (power_pos hb)]
  exact hlt

/-- A number that fills no more than the field is a whole number of units already. -/
theorem rounded_keptValue : l.rounded (l.keptValue q) = l.keptUnits q := by
  rw [rounded, abs_of_nonneg (keptValue_nonneg q hb), keptValue,
    div_mul_cancel₀ _ (power_pos hb).ne', Nat.floor_eq_iff (by positivity)]
  constructor <;> linarith

/-- What is kept is kept again. -/
theorem keptUnits_keptValue : l.keptUnits (l.keptValue q) = l.keptUnits q := by
  rw [keptUnits_of_lt, rounded_keptValue q hb]
  rw [rounded_keptValue q hb]
  exact keptUnits_lt q hb

end Kept

/-! ## The mask computes it -/

section BitRadix

variable {l : Layout} (hb : l.base = 2 ∨ l.base = 8 ∨ l.base = 16) (hi : l.integers ≤ 64)
  (hf : l.fraction ≤ 64)

include hb

/-- A mask does not ask whether the field of the layout is fixed, so it may as well be. -/
theorem isMasked_exactDigits : { l with exactDigits := true }.IsMasked :=
  ⟨rfl, hb⟩

theorem isShort_keptUnits {x : Double} {q : ℚ} (hx : x.toRat? = some q) :
    IsShort (l.keptUnits q) := by
  have hshort := isShort_shownMagnitude (isMasked_exactDigits hb) hx
  rwa [shownMagnitude_of_isMasked (isMasked_exactDigits hb)] at hshort

include hi hf

/-- A mask of a finite number is the digits kept, divided by the power of the base once. -/
theorem mask_of_toRat? {x : Double} {q : ℚ} (hx : x.toRat? = some q) :
    l.mask x = .ok ⟨.ofNat (l.keptUnits q) / .ofNat (l.base ^ l.fraction), l.maskTolerance⟩ := by
  obtain ⟨r, bits, hr, hvalue, hbits⟩ := exists_maskRadix (isMasked_exactDigits hb) hi hf
  have hr : l.maskRadix = .ok (r, bits) := hr
  have hvalue : r.value = l.base := hvalue
  obtain ⟨negative, rank, rfl, rfl⟩ := Double.exists_finite_of_toRat? hx
  have hscaled := scaled_eq hvalue negative (Double.unitsOfRank rank)
  -- the bits that the mask keeps are the digits kept
  have hkeep := keep_eq_mod hbits l (Double.scaled r l.fraction (Double.unitsOfRank rank))
  rw [digitCount] at hkeep
  rw [mask, hr, keptUnits, maskTolerance, ← hscaled, ← hvalue, ← hkeep]
  rfl

/-- An exceptional value is left alone. -/
theorem mask_of_units?_eq_none {x : Double} (hx : x.units? = none) :
    l.mask x = .ok ⟨x, l.maskTolerance⟩ := by
  obtain ⟨r, bits, hr, hvalue, -⟩ := exists_maskRadix (isMasked_exactDigits hb) hi hf
  have hr : l.maskRadix = .ok (r, bits) := hr
  have hvalue : r.value = l.base := hvalue
  unfold maskTolerance
  rw [mask, hr, ← hvalue]
  simp only [maskIn, hx]

end BitRadix

/-! ## Exactness -/

/-- A masked number that is exact for the value `q`: it is what the field keeps of the value, the
two doubles that are divided are exact, and the tolerance is half a unit of the last digit behind
the point. As long as the value fits the field, it is no further away than that. -/
structure MasksExactly (l : Layout) (q : ℚ) (masked : Masked) : Prop where
  value_eq : masked.value = .ofNat (l.keptUnits q) / .ofNat (l.base ^ l.fraction)
  units : (Double.ofNat (l.keptUnits q)).toRat? = some (l.keptUnits q : ℚ)
  power : (Double.ofNat (l.base ^ l.fraction)).toRat? = some ((l.base : ℚ) ^ l.fraction)
  value : masked.value.toRat? = some (l.keptValue q)
  nonneg : 0 ≤ l.keptValue q
  lt_power : l.keptValue q < (l.base : ℚ) ^ max l.integers 1
  tolerance : masked.tolerance.toRat? =
    some (if 0 < l.fraction then 1 / (2 * (l.base : ℚ) ^ l.fraction) else 0)
  near : l.rounded q < l.base ^ (max l.integers 1 + l.fraction) → 0 < l.fraction →
    |l.keptValue q - (|q|)| ≤ 1 / (2 * (l.base : ℚ) ^ l.fraction)

section Exact

variable {l : Layout} {k : ℕ} (hk : k ≤ 4) (hbase : l.base = 2 ^ k) (hf : l.fraction ≤ 64)

include hbase

theorem power_eq_two_pow : l.base ^ l.fraction = 2 ^ (k * l.fraction) := by
  rw [hbase, pow_mul]

theorem cast_power_eq_two_pow : (l.base : ℚ) ^ l.fraction = 2 ^ (k * l.fraction) := by
  exact_mod_cast congrArg (Nat.cast (R := ℚ)) (power_eq_two_pow hbase)

include hk hf

theorem toRat?_power :
    (Double.ofNat (l.base ^ l.fraction)).toRat? = some ((l.base : ℚ) ^ l.fraction) := by
  have hlt : 2 ^ (k * l.fraction) < 2 ^ 1024 := pow_lt_pow_right₀ one_lt_two (by nlinarith)
  have hexact := (isShort_two_pow (k * l.fraction)).toRat?_ofNat hlt
  rwa [← power_eq_two_pow hbase, Nat.cast_pow] at hexact

/-- A whole number of units with few significant bits is divided without rounding. -/
theorem toRat?_ofNat_div_power {n : ℕ} (h : IsShort n) (hlt : n < 2 ^ 1024) :
    (Double.ofNat n / .ofNat (l.base ^ l.fraction)).toRat? =
      some ((n : ℚ) / (l.base : ℚ) ^ l.fraction) := by
  rw [power_eq_two_pow hbase, cast_power_eq_two_pow hbase]
  exact Double.toRat?_ofNat_div h hlt (by nlinarith)

theorem toRat?_maskTolerance : l.maskTolerance.toRat? =
    some (if 0 < l.fraction then 1 / (2 * (l.base : ℚ) ^ l.fraction) else 0) := by
  have hbits : 1 + k * l.fraction < 1024 := by nlinarith
  rw [maskTolerance]
  split
  · have hdouble : Double.ofNat 2 * .ofNat (2 ^ (k * l.fraction)) =
        .ofNat (2 ^ (1 + k * l.fraction)) := Double.ofNat_two_pow_mul (i := 1) hbits
    have hquotient := Double.toRat?_ofNat_div (isShort_two_pow 0)
      (pow_lt_pow_right₀ one_lt_two (by decide)) hbits
    rw [pow_zero, Double.ofNat_one, Nat.cast_one, pow_add (2 : ℚ), pow_one] at hquotient
    rw [power_eq_two_pow hbase, hdouble, hquotient, cast_power_eq_two_pow hbase]
  · have hzero := (Double.isShort_of_le (Nat.zero_le _)).toRat?_ofNat (pow_pos two_pos 1024)
    rwa [Double.ofNat_zero, Nat.cast_zero] at hzero

end Exact

/-- Neither the units kept nor their quotient by the power of the base are rounded. -/
theorem toRat?_ofNat_keptUnits {l : Layout} (hb : l.base = 2 ∨ l.base = 8 ∨ l.base = 16)
    (hi : l.integers ≤ 64) (hf : l.fraction ≤ 64) {x : Double} {q : ℚ} (hx : x.toRat? = some q) :
    (Double.ofNat (l.keptUnits q)).toRat? = some (l.keptUnits q : ℚ) ∧
    (Double.ofNat (l.keptUnits q) / .ofNat (l.base ^ l.fraction)).toRat? =
      some (l.keptValue q) := by
  obtain ⟨k, hk, hbase⟩ := AnswerReader.exists_two_pow hb
  have hshort := isShort_keptUnits hb hx
  have hlt : l.keptUnits q < 2 ^ 1024 := by
    refine (keptUnits_lt q (by omega)).trans ?_
    have hwidth : max l.integers 1 ≤ 64 := max_le hi (by decide)
    rw [hbase, ← pow_mul]
    exact pow_lt_pow_right₀ one_lt_two (by nlinarith)
  exact ⟨hshort.toRat?_ofNat hlt, toRat?_ofNat_div_power hk hbase hf hshort hlt⟩

/-- In base 2, 8 or 16 a mask is exact: what it leaves of a finite number is the low digits of its
magnitude, which was rounded once to the last digit, and no later step rounds. -/
theorem mask_exact {l : Layout} (hb : l.base = 2 ∨ l.base = 8 ∨ l.base = 16)
    (hi : l.integers ≤ 64) (hf : l.fraction ≤ 64) {x : Double} {q : ℚ} (hx : x.toRat? = some q) :
    ∃ masked, l.mask x = .ok masked ∧ l.MasksExactly q masked := by
  obtain ⟨k, hk, hbase⟩ := AnswerReader.exists_two_pow hb
  obtain ⟨hunits, hvalue⟩ := toRat?_ofNat_keptUnits hb hi hf hx
  have hpos : 0 < l.base := by omega
  refine ⟨_, mask_of_toRat? hb hi hf hx, ?_⟩
  constructor
  case value_eq => rfl
  case units => exact hunits
  case power => exact toRat?_power hk hbase hf
  case value => exact hvalue
  case nonneg => exact keptValue_nonneg q hpos
  case lt_power => exact keptValue_lt q hpos
  case tolerance => exact toRat?_maskTolerance hk hbase hf
  case near =>
    intro hfits _
    rw [keptValue, keptUnits_of_lt q hfits]
    exact abs_rounded_div_sub_le hpos q

/-- -22.375 in a field of one hexadecimal digit before the point and one behind it. -/
theorem mask_exact_hexadecimal :
    (⟨16, 1, 1, 0, false, false⟩ : Layout).mask (.ofBits 0xC036600000000000) =
      .ok ⟨.ofBits 0x4019800000000000, .ofBits 0x3FA0000000000000⟩ ∧
    (⟨16, 1, 1, 0, false, false⟩ : Layout).MasksExactly (-179 / 8)
      ⟨.ofBits 0x4019800000000000, .ofBits 0x3FA0000000000000⟩ := by
  have hvalue : (Double.ofBits 0xC036600000000000).toRat? = some (-179 / 8) := by decide +kernel
  have hmask : (⟨16, 1, 1, 0, false, false⟩ : Layout).mask (.ofBits 0xC036600000000000) =
      .ok ⟨.ofBits 0x4019800000000000, .ofBits 0x3FA0000000000000⟩ := by decide +kernel
  obtain ⟨masked, hok, hexact⟩ := mask_exact (l := ⟨16, 1, 1, 0, false, false⟩)
    (.inr (.inr rfl)) (by decide) (by decide) hvalue
  rw [hmask] at hok
  cases hok
  exact ⟨hmask, hexact⟩

/-! ## Masking again -/

/-- In base 2, 8 or 16 every double has a mask, and masking it again leaves it alone, with the same
tolerance. -/
theorem mask_mask {l : Layout} (hb : l.base = 2 ∨ l.base = 8 ∨ l.base = 16)
    (hi : l.integers ≤ 64) (hf : l.fraction ≤ 64) (x : Double) :
    ∃ masked, l.mask x = .ok masked ∧ l.mask masked.value = .ok masked := by
  cases x with
  | nan => exact ⟨_, mask_of_units?_eq_none hb hi hf rfl, mask_of_units?_eq_none hb hi hf rfl⟩
  | infinity negative =>
    exact ⟨_, mask_of_units?_eq_none hb hi hf rfl, mask_of_units?_eq_none hb hi hf rfl⟩
  | finite negative rank =>
    have hx := Double.toRat?_finite negative rank
    obtain ⟨-, hvalue⟩ := toRat?_ofNat_keptUnits hb hi hf hx
    have hagain := mask_of_toRat? hb hi hf hvalue
    rw [keptUnits_keptValue _ (by omega)] at hagain
    exact ⟨_, mask_of_toRat? hb hi hf hx, hagain⟩

/-- 22.375 in a field of one hexadecimal digit before the point and one behind it. -/
theorem mask_mask_hexadecimal :
    (⟨16, 1, 1, 0, false, false⟩ : Layout).mask (.ofBits 0x4036600000000000) =
      .ok ⟨.ofBits 0x4019800000000000, .ofBits 0x3FA0000000000000⟩ ∧
    (⟨16, 1, 1, 0, false, false⟩ : Layout).mask (.ofBits 0x4019800000000000) =
      .ok ⟨.ofBits 0x4019800000000000, .ofBits 0x3FA0000000000000⟩ := by
  have hmask : (⟨16, 1, 1, 0, false, false⟩ : Layout).mask (.ofBits 0x4036600000000000) =
      .ok ⟨.ofBits 0x4019800000000000, .ofBits 0x3FA0000000000000⟩ := by decide +kernel
  obtain ⟨masked, hok, hagain⟩ := mask_mask (l := ⟨16, 1, 1, 0, false, false⟩)
    (.inr (.inr rfl)) (by decide) (by decide) (.ofBits 0x4036600000000000)
  rw [hmask] at hok
  cases hok
  exact ⟨hmask, hagain⟩

end RadixCalc.Layout
