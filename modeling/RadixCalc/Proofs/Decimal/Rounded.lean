import RadixCalc.Decimal.Significant
import RadixCalc.Proofs.Digits
import RadixCalc.Proofs.Double.Nearest

/-!
# Rounding to significant digits

A value rounded to a number of significant digits is the whole number nearest to it in units of the
last of these digits, a tie going to the even one. The last digit is found from the first, and the
first from the decimal logarithm of the value, which is the greatest power of ten not above it.

* `IsNearestEven` and `Decimal.RoundsTo` are the specification, in terms of fractions; both have one
  solution at most (`IsNearestEven.unique`, `Decimal.RoundsTo.unique`).
* `Decimal.magnitudeExponent_eq_log` says that counting the digits of a raised magnitude finds the
  first of them.
* `Decimal.roundsTo_significant` says that `Decimal.significant` rounds so, and
  `Decimal.hasDigits_significant` that the result has the digits asked for, also where a carry
  made one more of them.
-/

namespace RadixCalc

/-- A distance, measured in units. -/
theorem abs_div_sub {unit : ℚ} (h : 0 < unit) (a b : ℚ) :
    |a / unit - b| = |a - b * unit| / unit := by
  rw [← abs_of_pos h, ← abs_div, abs_of_pos h, sub_div, mul_div_cancel_right₀ _ h.ne']

/-! ## The nearest whole number -/

/-- The whole number lies nearest to the value, and of two that lie equally near it is the even
one. -/
structure IsNearestEven (n : ℕ) (y : ℚ) : Prop where
  near : |(n : ℚ) - y| ≤ 1 / 2
  even : |(n : ℚ) - y| = 1 / 2 → Even n

theorem isNearestEven_of_lt {n : ℕ} {y : ℚ} (h : |(n : ℚ) - y| < 1 / 2) : IsNearestEven n y :=
  ⟨h.le, fun heq => absurd heq h.ne⟩

theorem IsNearestEven.le {m n : ℕ} {y : ℚ} (hm : IsNearestEven m y) (hn : IsNearestEven n y) :
    m ≤ n := by
  by_contra hlt
  obtain ⟨-, hm₂⟩ := abs_le.1 hm.near
  obtain ⟨hn₁, -⟩ := abs_le.1 hn.near
  have hstep : m ≤ n + 1 := by
    have hcast : (m : ℚ) ≤ (n + 1 : ℕ) := by push_cast; linarith
    exact_mod_cast hcast
  obtain rfl : m = n + 1 := by omega
  -- Two neighbours that both are nearest lie half a unit away, and one of them is odd.
  have hmid : y = n + 1 / 2 := by
    push_cast at hm₂
    linarith
  have hm := hm.even (by rw [hmid]; push_cast; norm_num)
  have hn := hn.even (by rw [hmid, sub_add_cancel_left, abs_neg]; norm_num)
  exact Nat.even_add_one.1 hm hn

/-- What is nearest to a value is not above a whole number that the value passes by less than a
half. -/
theorem IsNearestEven.le_of_lt {m n : ℕ} {y : ℚ} (h : IsNearestEven n y) (hy : y < m + 1 / 2) :
    n ≤ m := by
  obtain ⟨-, habove⟩ := abs_le.1 h.near
  have hcast : (n : ℚ) < (m + 1 : ℕ) := by
    push_cast
    linarith
  exact Nat.lt_succ_iff.1 (by exact_mod_cast hcast)

theorem IsNearestEven.le_of_le {m n : ℕ} {y : ℚ} (h : IsNearestEven n y) (hy : y ≤ m) : n ≤ m :=
  h.le_of_lt (by linarith)

theorem IsNearestEven.le_of_ge {m n : ℕ} {y : ℚ} (h : IsNearestEven n y) (hy : m ≤ y) : m ≤ n := by
  obtain ⟨hbelow, -⟩ := abs_le.1 h.near
  have hcast : (m : ℚ) < (n + 1 : ℕ) := by
    push_cast
    linarith
  exact Nat.lt_succ_iff.1 (by exact_mod_cast hcast)

theorem IsNearestEven.unique {m n : ℕ} {y : ℚ} (hm : IsNearestEven m y)
    (hn : IsNearestEven n y) : m = n :=
  le_antisymm (hm.le hn) (hn.le hm)

/-- Half way between two whole numbers the even one is taken. -/
theorem divNearestEven_even (num den : ℕ) (hden : 0 < den)
    (h : 2 * num = 2 * (divNearestEven num den * den) + den ∨
      2 * (divNearestEven num den * den) = 2 * num + den) :
    Even (divNearestEven num den) := by
  have hsplit := Nat.div_add_mod num den
  have hrest := Nat.mod_lt num hden
  rw [Nat.even_iff]
  unfold divNearestEven at h ⊢
  simp only at h ⊢
  split at h
  · rw [if_pos ‹_›]
    rw [Nat.mul_comm (num / den)] at h
    omega
  · rw [if_neg ‹_›]
    rw [Nat.add_mul, Nat.mul_comm (num / den)] at h
    omega

theorem isNearestEven_divNearestEven (num : ℕ) {den : ℕ} (hden : 0 < den) :
    IsNearestEven (divNearestEven num den) ((num : ℚ) / den) := by
  have hpos : (0 : ℚ) < den := Nat.cast_pos.2 hden
  have habove := two_mul_divNearestEven_mul_le num den
  have hbelow := two_mul_le_divNearestEven_mul num hden
  have hscaled : |(divNearestEven num den : ℚ) - num / den| =
      |(num : ℚ) - (divNearestEven num den * den : ℕ)| / den := by
    rw [abs_sub_comm, abs_div_sub hpos, Nat.cast_mul]
  have heven := divNearestEven_even num den hden
  generalize hproduct : divNearestEven num den * den = product at *
  have habove : (2 : ℚ) * product ≤ 2 * num + den := by exact_mod_cast habove
  have hbelow : (2 : ℚ) * num ≤ 2 * product + den := by exact_mod_cast hbelow
  constructor
  · rw [hscaled, div_le_iff₀ hpos, abs_le]
    constructor <;> linarith
  · intro htie
    rw [hscaled, div_eq_iff hpos.ne'] at htie
    refine heven ?_
    rcases eq_or_eq_neg_of_abs_eq htie with h | h
    · left
      have hcast : (2 : ℚ) * num = 2 * product + den := by linarith
      exact_mod_cast hcast
    · right
      have hcast : (2 : ℚ) * product = 2 * num + den := by linarith
      exact_mod_cast hcast

/-! ## Powers of ten -/

theorem zpow_ten_pos (e : ℤ) : (0 : ℚ) < 10 ^ e :=
  zpow_pos (by norm_num) e

/-- The decimal logarithm of a value is the greatest power of ten not above it. -/
theorem log_eq_iff {q : ℚ} (hq : 0 < q) {e : ℤ} :
    Int.log 10 q = e ↔ (10 : ℚ) ^ e ≤ q ∧ q < 10 ^ (e + 1) := by
  have hle := Int.zpow_le_iff_le_log (b := 10) (by decide) (x := e) hq
  have hlt := Int.lt_zpow_iff_log_lt (b := 10) (by decide) (x := e + 1) hq
  rw [Nat.cast_ofNat] at hle hlt
  rw [hle, hlt]
  omega

theorem zpow_log_le {q : ℚ} (hq : 0 < q) : (10 : ℚ) ^ Int.log 10 q ≤ q :=
  ((log_eq_iff hq).1 rfl).1

theorem lt_zpow_log {q : ℚ} (hq : 0 < q) : q < (10 : ℚ) ^ (Int.log 10 q + 1) :=
  ((log_eq_iff hq).1 rfl).2

theorem log_mul_zpow {q : ℚ} (hq : 0 < q) (e : ℤ) :
    Int.log 10 (q * 10 ^ e) = Int.log 10 q + e := by
  have hten : (10 : ℚ) ≠ 0 := by norm_num
  have hpos := zpow_ten_pos e
  rw [log_eq_iff (mul_pos hq hpos), add_right_comm, zpow_add₀ hten, zpow_add₀ hten _ e]
  exact ⟨mul_le_mul_of_nonneg_right (zpow_log_le hq) hpos.le,
    mul_lt_mul_of_pos_right (lt_zpow_log hq) hpos⟩

theorem log_lt_of_lt {q : ℚ} (hq : 0 < q) {e : ℤ} (h : q < 10 ^ e) : Int.log 10 q < e := by
  refine (Int.lt_zpow_iff_log_lt (b := 10) (by decide) hq).1 ?_
  rwa [Nat.cast_ofNat]

theorem length_digits_eq_log {n : ℕ} (hn : n ≠ 0) :
    ((digits 10 n).length : ℤ) = Int.log 10 (n : ℚ) + 1 := by
  have hlength := length_digits (by decide : 2 ≤ 10) n
  rw [Nat.length_digits 10 n (by decide) hn] at hlength
  rw [Int.log_natCast]
  omega

namespace Decimal

/-! ## The value of a decimal -/

/-- The value of a decimal. -/
def toRat (d : Decimal) : ℚ :=
  d.coefficient * 10 ^ d.exponent

theorem toRat_of_places {d : Decimal} {places : ℕ} (h : d.exponent = -places) :
    d.toRat = d.coefficient / 10 ^ places := by
  rw [toRat, h, zpow_neg, zpow_natCast, div_eq_mul_inv]

theorem toRat_pos {d : Decimal} (h : d.coefficient ≠ 0) : 0 < d.toRat :=
  mul_pos (Nat.cast_pos.2 (Nat.pos_of_ne_zero h)) (zpow_ten_pos _)

theorem zpow_exponent_le_toRat {d : Decimal} (h : d.coefficient ≠ 0) :
    (10 : ℚ) ^ d.exponent ≤ d.toRat :=
  le_mul_of_one_le_left (zpow_ten_pos _).le (by exact_mod_cast Nat.one_le_iff_ne_zero.2 h)

/-- The first digit of a decimal counts the greatest power of ten not above its value. -/
theorem leadingExponent_eq_log {d : Decimal} (h : d.coefficient ≠ 0) :
    d.leadingExponent = Int.log 10 d.toRat := by
  rw [leadingExponent, length_digits_eq_log h, toRat,
    log_mul_zpow (Nat.cast_pos.2 (Nat.pos_of_ne_zero h))]
  ring

/-! ## Digits and value -/

/-- The coefficient has `count` digits, the first of them not zero. -/
def HasDigits (count : ℕ) (d : Decimal) : Prop :=
  10 ^ (count - 1) ≤ d.coefficient ∧ d.coefficient < 10 ^ count

section HasDigits

variable {count : ℕ} {d e : Decimal}

theorem HasDigits.coefficient_ne_zero (h : HasDigits count d) : d.coefficient ≠ 0 :=
  (lt_of_lt_of_le (Nat.pow_pos (by decide)) h.1).ne'

theorem HasDigits.log_toRat (h : HasDigits count d) :
    Int.log 10 d.toRat = d.exponent + count - 1 := by
  have hne := h.coefficient_ne_zero
  have hcount : count ≠ 0 := by
    rintro rfl
    exact hne (by simpa using h.2)
  have hlog : Nat.log 10 d.coefficient = count - 1 :=
    Nat.log_eq_of_pow_le_of_lt_pow h.1 (by rw [Nat.sub_add_cancel (by omega)]; exact h.2)
  rw [toRat, log_mul_zpow (Nat.cast_pos.2 (Nat.pos_of_ne_zero hne)), Int.log_natCast, hlog]
  omega

/-- Decimals of equally many digits are told apart by their values. -/
theorem HasDigits.eq_of_toRat_eq (hd : HasDigits count d) (he : HasDigits count e)
    (h : d.toRat = e.toRat) : d = e := by
  have hexponent : d.exponent = e.exponent := by
    have hlog := hd.log_toRat
    rw [h, he.log_toRat] at hlog
    omega
  have hcoefficient : d.coefficient = e.coefficient := by
    rw [toRat, toRat, hexponent] at h
    exact_mod_cast mul_right_cancel₀ (zpow_ten_pos _).ne' h
  cases d
  cases e
  simp only at hexponent hcoefficient
  rw [hexponent, hcoefficient]

end HasDigits

/-! ## The first digit of a magnitude -/

attribute [local irreducible] Double.unitsPerOne

theorem unitsPerOne_le_raised {units : ℕ} (hunits : units ≠ 0) :
    Double.unitsPerOne ≤ units * 10 ^ raisingPlaces := by
  have hpow : 2 ^ Double.unitHalvings ≤ 10 ^ raisingPlaces := by decide +kernel
  rw [Double.unitsPerOne_eq]
  exact hpow.trans (Nat.le_mul_of_pos_left _ (Nat.pos_of_ne_zero hunits))

/-- Counting the digits of the raised magnitude finds its first digit. -/
theorem magnitudeExponent_eq_log {units : ℕ} (hunits : units ≠ 0) :
    magnitudeExponent units = Int.log 10 ((units : ℚ) / Double.unitsPerOne) := by
  have hpos := Double.div_unitsPerOne_pos hunits
  have hraised := unitsPerOne_le_raised hunits
  have hne : units * 10 ^ raisingPlaces / Double.unitsPerOne ≠ 0 :=
    (Nat.div_pos hraised Double.unitsPerOne_pos).ne'
  have hquotient : (units : ℚ) / Double.unitsPerOne * 10 ^ (raisingPlaces : ℤ) =
      ((units * 10 ^ raisingPlaces : ℕ) : ℚ) / Double.unitsPerOne := by
    rw [zpow_natCast]
    push_cast
    ring
  have hone : (1 : ℚ) ≤ ((units * 10 ^ raisingPlaces : ℕ) : ℚ) / Double.unitsPerOne := by
    rw [one_le_div Double.cast_unitsPerOne_pos]
    exact_mod_cast hraised
  have hfloor : Int.log 10 (((units * 10 ^ raisingPlaces : ℕ) : ℚ) / Double.unitsPerOne) =
      Int.log 10 ((units * 10 ^ raisingPlaces / Double.unitsPerOne : ℕ) : ℚ) := by
    rw [Int.log_of_one_le_right _ hone, Nat.floor_div_eq_div, Int.log_natCast]
  rw [magnitudeExponent, length_digits_eq_log hne, ← hfloor, ← hquotient, log_mul_zpow hpos]
  ring

/-- Dividing by a power of ten. -/
theorem overPowerOfTen_eq (units : ℕ) (e : ℤ) :
    0 < (overPowerOfTen units e).2 ∧
    ((overPowerOfTen units e).1 : ℚ) / (overPowerOfTen units e).2 =
      (units : ℚ) / Double.unitsPerOne / 10 ^ e := by
  unfold overPowerOfTen
  split
  · next he =>
    obtain ⟨places, rfl⟩ := Int.eq_ofNat_of_zero_le he
    refine ⟨Nat.mul_pos Double.unitsPerOne_pos (Nat.pow_pos (by decide)), ?_⟩
    push_cast
    rw [Int.toNat_natCast, zpow_natCast, div_div]
  · next he =>
    obtain ⟨places, hplaces⟩ : ∃ places : ℕ, e = -places := ⟨(-e).toNat, by omega⟩
    subst hplaces
    refine ⟨Double.unitsPerOne_pos, ?_⟩
    push_cast
    rw [neg_neg, Int.toNat_natCast, zpow_neg, zpow_natCast, div_inv_eq_mul, mul_div_right_comm]

/-! ## Significant digits -/

/-- The power of ten that the last of `count` significant digits of a value counts. -/
def lastPlace (count : ℕ) (q : ℚ) : ℤ :=
  Int.log 10 q - count + 1

/-- The value `v` is the value `q` rounded to `count` significant digits, a tie going to the even
digit. -/
def RoundsTo (count : ℕ) (q v : ℚ) : Prop :=
  ∃ n : ℕ, IsNearestEven n (q / 10 ^ lastPlace count q) ∧ v = n * 10 ^ lastPlace count q

theorem RoundsTo.unique {count : ℕ} {q v w : ℚ} (hv : RoundsTo count q v)
    (hw : RoundsTo count q w) : v = w := by
  obtain ⟨m, hm, rfl⟩ := hv
  obtain ⟨n, hn, rfl⟩ := hw
  rw [hm.unique hn]

/-- Rounding moves a value by half a unit of its last significant digit at most. -/
theorem RoundsTo.abs_sub_le {count : ℕ} {q v : ℚ} (h : RoundsTo count q v) :
    |q - v| ≤ 10 ^ lastPlace count q / 2 := by
  obtain ⟨n, hn, rfl⟩ := h
  have hplace := zpow_ten_pos (lastPlace count q)
  have hnear := hn.near
  rw [abs_sub_comm, abs_div_sub hplace, div_le_iff₀ hplace] at hnear
  linarith

section Bounds

variable {count : ℕ} {q : ℚ} (hq : 0 < q) (hcount : 0 < count)

include hq hcount

/-- In units of its last significant digit a value has as many digits before the point. -/
theorem scaled_bounds : ((10 ^ (count - 1) : ℕ) : ℚ) ≤ q / 10 ^ lastPlace count q ∧
    q / 10 ^ lastPlace count q < ((10 ^ count : ℕ) : ℚ) := by
  have hten : (10 : ℚ) ≠ 0 := by norm_num
  have hlow : ((count - 1 : ℕ) : ℤ) + lastPlace count q = Int.log 10 q := by
    rw [lastPlace]
    omega
  have hhigh : (count : ℤ) + lastPlace count q = Int.log 10 q + 1 := by
    rw [lastPlace]
    ring
  rw [le_div_iff₀ (zpow_ten_pos _), div_lt_iff₀ (zpow_ten_pos _), Nat.cast_pow, Nat.cast_pow,
    Nat.cast_ofNat, ← zpow_natCast, ← zpow_natCast, ← zpow_add₀ hten, ← zpow_add₀ hten, hlow, hhigh]
  exact ⟨zpow_log_le hq, lt_zpow_log hq⟩

/-- So it has rounded, or it is the next power of ten. -/
theorem nearest_bounds {n : ℕ} (h : IsNearestEven n (q / 10 ^ lastPlace count q)) :
    10 ^ (count - 1) ≤ n ∧ n ≤ 10 ^ count :=
  ⟨h.le_of_ge (scaled_bounds hq hcount).1, h.le_of_le (scaled_bounds hq hcount).2.le⟩

end Bounds

/-- A power of ten with one digit too many is written with a digit less. -/
theorem carry_eq {count : ℕ} (hcount : 0 < count) (place : ℤ) :
    ((10 ^ count : ℕ) : ℚ) * 10 ^ place = (⟨10 ^ (count - 1), place + 1⟩ : Decimal).toRat := by
  obtain ⟨k, rfl⟩ := Nat.exists_eq_succ_of_ne_zero hcount.ne'
  rw [toRat, zpow_add_one₀ (by norm_num)]
  push_cast [pow_succ]
  ring

section Significant

variable {units : ℕ} (hunits : units ≠ 0)

include hunits

/-- The digits before and after a carry is written as a power of ten. -/
theorem exists_significant (count : ℕ) : ∃ n : ℕ,
    IsNearestEven n ((units : ℚ) / Double.unitsPerOne /
      10 ^ lastPlace count ((units : ℚ) / Double.unitsPerOne)) ∧
    significant count units =
      if n = 10 ^ count then
        ⟨10 ^ (count - 1), lastPlace count ((units : ℚ) / Double.unitsPerOne) + 1⟩
      else ⟨n, lastPlace count ((units : ℚ) / Double.unitsPerOne)⟩ := by
  obtain ⟨hden, hquotient⟩ := overPowerOfTen_eq units
    (lastPlace count ((units : ℚ) / Double.unitsPerOne))
  have hnearest := isNearestEven_divNearestEven
    (overPowerOfTen units (lastPlace count ((units : ℚ) / Double.unitsPerOne))).1 hden
  rw [hquotient] at hnearest
  refine ⟨_, hnearest, ?_⟩
  simp only [significant, magnitudeExponent_eq_log hunits, lastPlace]
  rfl

variable {count : ℕ} (hcount : 0 < count)

include hcount

/-- A magnitude is rounded as the specification says. -/
theorem roundsTo_significant :
    RoundsTo count ((units : ℚ) / Double.unitsPerOne) (significant count units).toRat := by
  obtain ⟨n, hnearest, heq⟩ := exists_significant hunits count
  refine ⟨n, hnearest, ?_⟩
  rw [heq]
  split
  · next hcarry =>
    rw [hcarry, carry_eq hcount]
  · rfl

/-- It has as many digits as were asked for. -/
theorem hasDigits_significant : HasDigits count (significant count units) := by
  obtain ⟨n, hnearest, heq⟩ := exists_significant hunits count
  obtain ⟨hlow, hhigh⟩ := nearest_bounds (Double.div_unitsPerOne_pos hunits) hcount hnearest
  rw [HasDigits, heq]
  split
  · exact ⟨le_rfl, Nat.pow_lt_pow_right (by decide) (by omega)⟩
  · next hne => exact ⟨hlow, lt_of_le_of_ne hhigh hne⟩

end Significant

end Decimal

end RadixCalc
