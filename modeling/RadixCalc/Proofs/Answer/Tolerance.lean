import RadixCalc.Proofs.Answer.BitRadices
import RadixCalc.Proofs.Answer.Displayed
import RadixCalc.Proofs.Double.Powers

/-!
# Reading back within the precision of a layout

In most bases reading a number rounds at every digit, in the power of the base and in the division,
and its text was rounded to a digit before. All of it stays within half a unit of the last digit
shown and a part of the number that is far below the precision of a question:

* `Layout.abs_shownValue_sub_le` is the error of showing.
* `length_digits_le` bounds the number of digits, and `AnswerReader.exists_valueOf` the error of
  reading them, for all bases alike.
* `AnswerReader.read?_display_within` puts the two together.
-/

namespace RadixCalc

/-! ## The error of showing -/

namespace Layout

/-- A value that is shown in units of the last digit is off by half a unit at most. -/
theorem abs_rounded_sub_le (l : Layout) (q : ℚ) :
    |(l.rounded q : ℚ) - |q| * (l.base : ℚ) ^ l.fraction| ≤ 1 / 2 := by
  have hpos : 0 ≤ |q| * (l.base : ℚ) ^ l.fraction + 1 / 2 := by positivity
  have hle := Nat.floor_le hpos
  have hlt := Nat.lt_floor_add_one (|q| * (l.base : ℚ) ^ l.fraction + 1 / 2)
  rw [← rounded] at hle hlt
  rw [abs_le]
  constructor <;> linarith

theorem rounded_le {l : Layout} {q : ℚ} {bound : ℕ} (h : |q| * (l.base : ℚ) ^ l.fraction ≤ bound) :
    l.rounded q ≤ bound := by
  have hpos : 0 ≤ |q| * (l.base : ℚ) ^ l.fraction + 1 / 2 := by positivity
  rw [rounded, ← Nat.lt_succ_iff, Nat.floor_lt hpos, Nat.cast_succ]
  linarith

/-- So a value rounded to a digit is off by half a unit of that digit at most. -/
theorem abs_rounded_div_sub_le {l : Layout} (hb : 0 < l.base) (q : ℚ) :
    |(l.rounded q : ℚ) / (l.base : ℚ) ^ l.fraction - (|q|)| ≤
      1 / (2 * (l.base : ℚ) ^ l.fraction) := by
  have hpower : (0 : ℚ) < (l.base : ℚ) ^ l.fraction := pow_pos (Nat.cast_pos.2 hb) _
  rw [← mul_div_cancel_right₀ |q| hpower.ne', ← sub_div, abs_div, abs_of_pos hpower, ← div_div]
  exact div_le_div_of_nonneg_right (l.abs_rounded_sub_le q) hpower.le

/-- The number shown, with the sign of the value. -/
def shownValue (l : Layout) (q : ℚ) : ℚ :=
  (if q < 0 then -1 else 1) * ((l.rounded q : ℚ) / (l.base : ℚ) ^ l.fraction)

theorem abs_shownValue (l : Layout) (q : ℚ) :
    |l.shownValue q| = (l.rounded q : ℚ) / (l.base : ℚ) ^ l.fraction := by
  have hnonneg : 0 ≤ (l.rounded q : ℚ) / (l.base : ℚ) ^ l.fraction := by positivity
  rw [shownValue, abs_mul, abs_of_nonneg hnonneg]
  split <;> simp

/-- The number shown is off by half a unit of the last digit at most. -/
theorem abs_shownValue_sub_le {l : Layout} (hb : 0 < l.base) (q : ℚ) :
    |l.shownValue q - q| ≤ 1 / (2 * (l.base : ℚ) ^ l.fraction) := by
  have hscaled := abs_rounded_div_sub_le hb q
  rw [shownValue]
  split
  · next hneg =>
    rw [abs_of_neg hneg, sub_neg_eq_add] at hscaled
    rwa [neg_one_mul, ← abs_neg, neg_sub, sub_neg_eq_add, add_comm]
  · next hneg =>
    rw [abs_of_nonneg (not_lt.1 hneg)] at hscaled
    rwa [one_mul]

end Layout

/-! ## The error of reading -/

theorem length_digits_le {base n : ℕ} (hb : 2 ≤ base) (hn : n ≤ 2 ^ 1023) :
    (digits base n).length ≤ 1024 := by
  have hlt : n < base ^ 1024 :=
    hn.trans_lt ((pow_lt_pow_right₀ one_lt_two (by decide)).trans_le (pow_le_pow_left₀ (by decide)
      hb 1024))
  exact (length_digits_le_iff hb (by decide)).2 hlt

namespace AnswerReader

section Reading

variable {r : Radix} {whole fraction : List ℕ} (hds : ∀ d ∈ whole ++ fraction, d < r.value)
  (hlen : (whole ++ fraction).length ≤ 1024) (hf : fraction.length ≤ 64)
  (hle : valueOfDigits r.value (whole ++ fraction) ≤ 2 ^ 1023)

include hf hle in
/-- A number with up to 64 digits behind the point keeps clear of the smallest magnitudes. -/
theorem inRange_shown :
    Double.InRange ((valueOfDigits r.value (whole ++ fraction) : ℚ) /
      ((r.value ^ fraction.length : ℕ) : ℚ)) := by
  rcases Nat.eq_zero_or_pos (valueOfDigits r.value (whole ++ fraction)) with hzero | hpos
  · rw [hzero, Nat.cast_zero, zero_div]
    exact .inl rfl
  · have hvalue := r.two_le
    have hpower : 0 < r.value ^ fraction.length := pow_pos (by omega) _
    have hbits : r.value ^ fraction.length ≤ 2 ^ 1000 :=
      calc r.value ^ fraction.length ≤ (2 ^ 6) ^ fraction.length :=
            Nat.pow_le_pow_left (r.le_thirtySix.trans (by decide)) _
        _ = 2 ^ (6 * fraction.length) := (pow_mul 2 6 _).symm
        _ ≤ 2 ^ 1000 := pow_le_pow_right₀ one_le_two (by omega)
    have hpower' : (0 : ℚ) < ((r.value ^ fraction.length : ℕ) : ℚ) := Nat.cast_pos.2 hpower
    right
    constructor
    · rw [div_mul_eq_mul_div, one_le_div hpower']
      exact_mod_cast hbits.trans (Nat.le_mul_of_pos_left _ hpos)
    · refine (div_le_self (Nat.cast_nonneg _) (Nat.one_le_cast.2 hpower)).trans ?_
      exact_mod_cast hle

include hds hlen hf hle

/-- The digits of a number are read with an error of one part in `10 ^ 12` at most, whatever their
base. -/
theorem exists_valueOf (negative : Bool) :
    ∃ v, (valueOf r negative whole fraction).toRat? = some v ∧
      |v - (if negative then -1 else 1) * ((valueOfDigits r.value (whole ++ fraction) : ℚ) /
        (r.value : ℚ) ^ fraction.length)| ≤
      1 / 10 ^ 12 * ((valueOfDigits r.value (whole ++ fraction) : ℚ) /
        (r.value : ℚ) ^ fraction.length) := by
  have hb : 2 ≤ r.value ∧ r.value ≤ 36 := ⟨r.two_le, r.le_thirtySix⟩
  have hrange := inRange_shown hf hle
  have hsteps : 2 * (whole ++ fraction).length + fraction.length + 1 ≤ Double.roundingLimit := by
    rw [Double.roundingLimit]
    omega
  have hall := Double.near_ofDigits hb hds (by omega) hle
  have hpower := Double.near_powNat hb hf
  have hmagnitude : Double.Near (2 * (whole ++ fraction).length + fraction.length + 1)
      (if fraction.isEmpty then r.toDouble (whole ++ fraction)
        else r.toDouble (whole ++ fraction) / (Double.ofNat r.value).powNat fraction.length)
      ((valueOfDigits r.value (whole ++ fraction) : ℚ) /
        ((r.value ^ fraction.length : ℕ) : ℚ)) := by
    split
    · next hempty =>
      rw [List.isEmpty_iff.1 hempty] at hall ⊢
      rw [List.length_nil, pow_zero, Nat.cast_one, div_one]
      exact hall.mono (Nat.cast_nonneg _) (by omega)
    · have hpos : (0 : ℚ) < ((r.value ^ fraction.length : ℕ) : ℚ) :=
        Nat.cast_pos.2 (pow_pos (by omega) _)
      exact hall.div hpower (Nat.cast_nonneg _) hpos hrange (by omega)
  obtain ⟨v, hv, hwithin⟩ := hmagnitude.exists_toRat?
  have herror := hwithin.abs_sub_le hrange.nonneg hsteps
  rw [Nat.cast_pow] at herror
  rw [valueOf]
  cases negative with
  | false => exact ⟨v, by simpa using hv, by simpa using herror⟩
  | true =>
    refine ⟨-v, by simpa using Double.toRat?_neg hv, ?_⟩
    rw [if_pos rfl, neg_one_mul, sub_neg_eq_add, neg_add_eq_sub, abs_sub_comm]
    exact herror

end Reading

/-! ## Together -/

namespace ReadFrom

variable {l : Layout} {q : ℚ} {r : Radix} {whole fraction : List ℕ} {value : Double}
  (h : ReadFrom l q r whole fraction value) (hmasked : ¬l.IsMasked)

include h hmasked

theorem signed_eq_shownValue :
    (if decide (l.ShowsMinus q) then -1 else 1) *
      ((valueOfDigits r.value (whole ++ fraction) : ℚ) / (r.value : ℚ) ^ fraction.length) =
      l.shownValue q := by
  rw [h.base_eq, h.valueOfDigits_eq, h.length_fraction,
    Layout.shownMagnitude_of_not_isMasked hmasked, Layout.shownValue]
  by_cases hzero : l.rounded q = 0
  · simp [hzero]
  · simp [Layout.showsMinus_iff_neg hmasked hzero]

/-- What is read differs from what is shown by one part in `10 ^ 12` at most. -/
theorem exists_toRat? (hi : l.integers ≤ 64) (hf : l.fraction ≤ 64)
    (hle : l.rounded q ≤ 2 ^ 1023) :
    ∃ v, value.toRat? = some v ∧ |v - l.shownValue q| ≤ 1 / 10 ^ 12 * |l.shownValue q| := by
  have hmagnitude := Layout.shownMagnitude_of_not_isMasked hmasked q
  have hlength : (whole ++ fraction).length ≤ 1024 := by
    have hdigits := length_digits_le (h.base_eq ▸ r.two_le) hle
    rw [h.length_eq, hmagnitude, Layout.digitCount]
    omega
  obtain ⟨v, hv, herror⟩ := exists_valueOf (r := r) (by rw [h.base_eq]; exact h.digits_lt)
    hlength (by rw [h.length_fraction]; exact hf)
    (by rw [h.base_eq, h.valueOfDigits_eq, hmagnitude]; exact hle) (decide (l.ShowsMinus q))
  rw [← h.value_eq] at hv
  rw [h.signed_eq_shownValue hmasked, h.base_eq, h.valueOfDigits_eq, h.length_fraction, hmagnitude,
    ← l.abs_shownValue q] at herror
  exact ⟨v, hv, herror⟩

end ReadFrom

/-- In every base a number up to `2 ^ 1023` units of the last digit is read back within half such a
unit and one part in `10 ^ 12`; every digit, the power of the base and the division round. -/
theorem read?_display_within {l : Layout} (hb : 2 ≤ l.base ∧ l.base ≤ 36) (hi : l.integers ≤ 64)
    (hf : l.fraction ≤ 64) (hfree : l.exactDigits = false) {x : Double} {q : ℚ}
    (hx : x.toRat? = some q) (hq : |q| * (l.base : ℚ) ^ l.fraction ≤ 2 ^ 1023) :
    ∃ text reader value v, l.display x = .ok text ∧
      AnswerReader.make l.base .standard = .ok reader ∧
      reader.read? text = some ⟨value, []⟩ ∧ value.toRat? = some v ∧
      |v - q| ≤ (1 + 1 / 10 ^ 9) / (2 * (l.base : ℚ) ^ l.fraction) + 1 / 10 ^ 12 * |q| := by
  obtain ⟨text, reader, value, r, whole, fraction, hdisplay, hmake, hread, hfrom⟩ :=
    exists_read?_display hb hi hf hx
  obtain ⟨v, hv, herror⟩ := hfrom.exists_toRat? (Layout.not_isMasked_of_free hfree) hi hf
    (Layout.rounded_le (hq.trans_eq (Nat.cast_pow 2 1023).symm))
  refine ⟨text, reader, value, v, hdisplay, hmake, hread, hv, ?_⟩
  have hpower : (0 : ℚ) < (l.base : ℚ) ^ l.fraction := pow_pos (by exact_mod_cast (by omega)) _
  have hhalf : 0 < 1 / (2 * (l.base : ℚ) ^ l.fraction) := one_div_pos.2 (mul_pos two_pos hpower)
  have hshown := Layout.abs_shownValue_sub_le (l := l) (by omega) q
  have hsize : |l.shownValue q| ≤ |l.shownValue q - q| + |q| := by
    simpa using abs_add_le (l.shownValue q - q) q
  calc |v - q| ≤ |v - l.shownValue q| + |l.shownValue q - q| := abs_sub_le _ _ _
    _ ≤ 1 / 10 ^ 12 * (1 / (2 * (l.base : ℚ) ^ l.fraction) + |q|) +
        1 / (2 * (l.base : ℚ) ^ l.fraction) := by linarith
    _ ≤ (1 + 1 / 10 ^ 9) / (2 * (l.base : ℚ) ^ l.fraction) + 1 / 10 ^ 12 * |q| := by
        rw [add_div, ← mul_one_div (1 / 10 ^ 9 : ℚ)]
        linarith

/-- The double next to a tenth, with two digits behind the point in base three. -/
theorem read?_display_within_ternary :
    (⟨3, 1, 2, 0, false, false⟩ : Layout).display (.ofBits 0x3fb999999999999a) =
      .ok ['0', '.', '0', '1'] ∧
    ∃ reader value v, AnswerReader.make 3 .standard = .ok reader ∧
      reader.read? ['0', '.', '0', '1'] = some ⟨value, []⟩ ∧ value.toRat? = some v ∧
      |v - 3602879701896397 / 36028797018963968| ≤
        (1 + 1 / 10 ^ 9) / 18 + 1 / 10 ^ 12 * |3602879701896397 / 36028797018963968| := by
  have hdisplay : (⟨3, 1, 2, 0, false, false⟩ : Layout).display (.ofBits 0x3fb999999999999a) =
      .ok ['0', '.', '0', '1'] := by decide +kernel
  have hvalue : (Double.ofBits 0x3fb999999999999a).toRat? =
      some (3602879701896397 / 36028797018963968) := by decide +kernel
  have hsmall : |(3602879701896397 / 36028797018963968 : ℚ)| * (3 : ℚ) ^ 2 ≤ 2 ^ 1023 := by
    refine le_trans ?_ (one_le_pow₀ one_le_two)
    norm_num
  obtain ⟨text, reader, value, v, htext, hmake, hread, hv, herror⟩ :=
    read?_display_within (l := ⟨3, 1, 2, 0, false, false⟩) (by decide) (by decide) (by decide) rfl
      hvalue (by exact_mod_cast hsmall)
  rw [hdisplay] at htext
  cases htext
  refine ⟨hdisplay, reader, value, v, hmake, hread, hv, herror.trans_eq ?_⟩
  norm_num

end AnswerReader

end RadixCalc
