import RadixCalc.Formula.Builtin.Value
import RadixCalc.Proofs.Answer.WholeNumbers
import RadixCalc.Proofs.Double.Correct

/-!
# Converting digits and back

`decbin` and `decoct` show a number in base 2 or 8 and read the digits as a decimal number, and
`bindec` and `octdec` go the other way. In between stands a double. It holds a decimal number of
sixteen digits, and longer ones only where they happen to have 53 significant bits at most; where it
rounds them, other digits are read back.

* `Radix.asDecimal` is the decimal number to be held.
* `Radix.isShort_valueOfDigits_kept`: of the number held those digits are read back which the base
  has, and nothing is rounded in adding them up.
* `Radix.valueOfDigits_kept_eq_iff`: this restores the number converted only if the double holds the
  digits as they are, for neither a rounding nor a skipped digit is ever made up for.
* `Builtin.value_restored_iff` is the main result. Sixteen digits show the numbers below `2 ^ 16` in
  base 2 and below `2 ^ 48` in base 8; these two are restored as well, and the next ones are lost
  (`Builtin.value_lost`).
-/

namespace RadixCalc

/-! ## Whole numbers -/

namespace Double

attribute [local irreducible] unitsPerOne

/-- An even number up to `2 ^ 54` is short. -/
theorem isShort_of_two_dvd {n : ℕ} (hdvd : 2 ∣ n) (hle : n ≤ 2 * (2 * binadeSize)) : IsShort n := by
  obtain ⟨m, rfl⟩ := hdvd
  exact ⟨m, 1, by omega, Nat.mul_comm 2 m⟩

/-- A double with a whole value below `2 ^ 63` is that number as a word. -/
theorem toNat_toUInt64_toInt64 {x : Double} {n : ℕ} (hx : x.toRat? = some (n : ℚ))
    (hlt : n < 2 ^ 63) : x.toInt64.toUInt64.toNat = n := by
  obtain ⟨negative, rank, rfl, hvalue⟩ := exists_finite_of_toRat? hx
  have hsigned : signed negative (unitsOfRank rank) = ((n * unitsPerOne : ℕ) : ℤ) := by
    rw [eq_div_iff cast_unitsPerOne_pos.ne'] at hvalue
    exact_mod_cast hvalue.symm
  have hunits : unitsOfRank rank = n * unitsPerOne := by
    unfold signed at hsigned
    split at hsigned <;> omega
  have hwhole : signed negative (wholePart (unitsOfRank rank)) = (n : ℤ) := by
    rw [hunits] at hsigned ⊢
    rw [wholePart, Nat.mul_div_cancel _ unitsPerOne_pos]
    cases negative with
    | false => rfl
    | true =>
      -- Only a zero has a sign and a value that is not negative.
      have hzero : n * unitsPerOne = 0 := by
        rw [signed, if_pos rfl] at hsigned
        omega
      rw [(Nat.mul_eq_zero.1 hzero).resolve_right unitsPerOne_pos.ne']
      rfl
  have hbetween : (finite negative rank).toIntBetween Int64.minValue.toInt Int64.maxValue.toInt =
      (n : ℤ) := by
    have hbounds : Int64.minValue.toInt = -2 ^ 63 ∧ Int64.maxValue.toInt = 2 ^ 63 - 1 := by decide
    rw [toIntBetween, hwhole, hbounds.1, hbounds.2]
    omega
  rw [toInt64, hbetween]
  change (BitVec.ofInt 64 (n : ℤ)).toNat = n
  rw [BitVec.ofInt_natCast, BitVec.toNat_ofNat, Nat.mod_eq_of_lt (by omega)]

end Double

open Double (IsShort isShort_of_le isShort_of_two_dvd)

/-! ## Reading the digits of another base -/

namespace Radix

/-- The digits of a number in a base, read as a decimal number. -/
def asDecimal (r : Radix) (n : ℕ) : ℕ :=
  valueOfDigits 10 (digits r.value n)

/-- The decimal digits of a number that a base has. -/
def kept (r : Radix) (m : ℕ) : List ℕ :=
  (digits 10 m).filter (· < r.value)

theorem digitsAsDecimal_of_toRat? (r : Radix) {x : Double} {n : ℕ}
    (hx : x.toRat? = some (n : ℚ)) (hlt : n < 2 ^ 63) :
    x.digitsAsDecimal r = .ofNat (r.asDecimal n) := by
  rw [Double.digitsAsDecimal, Double.toNat_toUInt64_toInt64 hx hlt,
    Double.ofDecimal_of_nonneg _ _ le_rfl, Int.toNat_zero, pow_zero, Nat.mul_one]
  rfl

theorem decimalAsDigits_ofNat (r : Radix) {m : ℕ} (hm : IsShort m) (hlt : m < 2 ^ 1024) :
    (Double.ofNat m).decimalAsDigits r = r.toDouble (r.kept m) := by
  obtain ⟨rank, hrank, hunits⟩ := hm.exists_ofNat hlt
  rw [Double.decimalAsDigits, hrank, Double.units?, hunits]
  simp only [Double.wholePart, Nat.mul_div_cancel _ Double.unitsPerOne_pos]
  rfl

theorem kept_lt (r : Radix) (m : ℕ) : ∀ d ∈ r.kept m, d < r.value := by
  intro d hd
  exact of_decide_eq_true (List.mem_filter.1 hd).2

theorem asDecimal_zero (r : Radix) : r.asDecimal 0 = 0 := by
  rw [asDecimal, digits, lowDigits_of_lt (Nat.zero_lt_of_lt r.two_le)]
  rfl

/-- The digits are those of the decimal number. -/
theorem digits_asDecimal {r : Radix} (h : r.value ≤ 10) (n : ℕ) :
    digits 10 (r.asDecimal n) = digits r.value n := by
  rcases eq_or_ne n 0 with rfl | hn
  · rw [asDecimal_zero, digits, digits, lowDigits_of_lt (by decide),
      lowDigits_of_lt (Nat.zero_lt_of_lt r.two_le)]
  have hvalue : r.asDecimal n = Nat.ofDigits 10 (Nat.digits r.value n) := by
    rw [asDecimal, valueOfDigits_eq_ofDigits, digits, List.reverse_reverse,
      lowDigits_eq_digits r.two_le hn]
  have hne : r.asDecimal n ≠ 0 := by
    have hle := valueOfDigits_le_of_le h (digits r.value n)
    rw [valueOfDigits_digits] at hle
    unfold asDecimal
    omega
  have hlow : Nat.digits 10 (Nat.ofDigits 10 (Nat.digits r.value n)) = Nat.digits r.value n :=
    Nat.digits_ofDigits 10 (by decide) _
      (fun d hd => (Nat.digits_lt_base r.two_le hd).trans_le h)
      fun _ => Nat.getLast_digit_ne_zero r.value hn
  rw [digits, digits, lowDigits_eq_digits (by decide) hne, lowDigits_eq_digits r.two_le hn, hvalue,
    hlow]

/-- A decimal number that is held as it is gives the digits back. -/
theorem kept_asDecimal {r : Radix} (h : r.value ≤ 10) (n : ℕ) :
    r.kept (r.asDecimal n) = digits r.value n := by
  rw [kept, digits_asDecimal h, List.filter_eq_self]
  exact fun d hd => decide_eq_true (digits_lt r.two_le d hd)

/-! ## What is lost in between -/

section Bits

variable {r : Radix} {k : ℕ} (hr : r.value = 2 ^ k) (hk : k ≤ 3)

include hr hk

theorem le_eight : r.value ≤ 8 := by
  rw [hr]
  exact Nat.pow_le_pow_right two_pos hk

theorem two_dvd_value : 2 ∣ r.value := by
  have htwo := r.two_le
  interval_cases k <;> omega

/-- A number of few digits is read as a decimal number of as many digits, and clear of the next
longer ones. -/
theorem asDecimal_le (n : ℕ) :
    9 * r.asDecimal n + 7 ≤ 7 * 10 ^ (digits r.value n).length := by
  have hds := digits_lt (n := n) r.two_le
  have height := le_eight hr hk
  unfold asDecimal
  generalize digits r.value n = ds at hds
  induction ds using List.reverseRecOn with
  | nil => exact le_rfl
  | append_singleton ds d ih =>
    have hd : d < r.value := hds d (by simp)
    have ih := ih fun d' hd' => hds d' (by simp [hd'])
    rw [valueOfDigits_append_singleton, List.length_append, List.length_singleton, pow_succ]
    omega

/-- Up to `2 ^ 53` a number has at most 54 bits, which are whole digits in both bases. -/
theorem pow_length_le {n : ℕ} (hn : n ≤ 2 ^ 53) :
    r.value ^ (digits r.value n).length ≤ 2 ^ 54 := by
  obtain ⟨count, hcount⟩ : k ∣ 54 := by
    have htwo := r.two_le
    interval_cases k <;> omega
  have hpow : r.value ^ count = 2 ^ 54 := by rw [hr, ← pow_mul, ← hcount]
  have hpos : 0 < count := by
    apply Nat.pos_of_ne_zero
    rintro rfl
    omega
  rw [← hpow]
  apply Nat.pow_le_pow_right (Nat.zero_lt_of_lt r.two_le)
  rw [length_digits_le_iff r.two_le hpos, hpow]
  omega

/-! A number `n` is converted, the double holds `m` in place of its digits, and the digits of `m`
are read back. -/

section Held

variable {n m : ℕ} (hle : 2 * binadeSize * m ≤ (2 * binadeSize + 1) * r.asDecimal n)

include hle

/-- Rounding makes no digit more. -/
theorem length_digits_held_le : (digits 10 m).length ≤ (digits r.value n).length := by
  rw [length_digits_le_iff (by decide) (length_digits_pos r.two_le n)]
  have hbound := asDecimal_le hr hk n
  rw [binadeSize_eq] at hle
  omega

/-- Nothing is skipped where the number read back is not smaller. -/
theorem kept_eq_digits (h : max 1 n ≤ valueOfDigits r.value (r.kept m)) :
    r.kept m = digits 10 m ∧ (r.kept m).length = (digits r.value n).length := by
  have hlt : r.value ^ ((digits r.value n).length - 1) < r.value ^ (r.kept m).length :=
    ((pow_length_digits_le r.two_le n).trans h).trans_lt (valueOfDigits_lt r.two_le (r.kept_lt m))
  have hlength := (Nat.pow_lt_pow_iff_right r.two_le).1 hlt
  have hheld := length_digits_held_le hr hk hle
  have hkept : r.kept m = digits 10 m :=
    List.filter_sublist.eq_of_length_le (by change _ ≤ (r.kept m).length; omega)
  have hsame := congrArg List.length hkept
  exact ⟨hkept, by omega⟩

theorem valueOfDigits_kept_lt (hn : n ≤ 2 ^ 53) : valueOfDigits r.value (r.kept m) < 2 ^ 54 := by
  have hlength : (r.kept m).length ≤ (digits r.value n).length :=
    (List.length_filter_le _ _).trans (length_digits_held_le hr hk hle)
  calc valueOfDigits r.value (r.kept m) < r.value ^ (r.kept m).length :=
        valueOfDigits_lt r.two_le (r.kept_lt m)
    _ ≤ r.value ^ (digits r.value n).length :=
        Nat.pow_le_pow_right (Nat.zero_lt_of_lt r.two_le) hlength
    _ ≤ 2 ^ 54 := pow_length_le hr hk hn

/-- The number read back has 53 significant bits at most: where it is not below `2 ^ 53`, nothing
was skipped, and so it is even with the number held. -/
theorem isShort_valueOfDigits_kept (hshort : IsShort m) (hn : n ≤ 2 ^ 53) :
    IsShort (valueOfDigits r.value (r.kept m)) := by
  rcases le_or_gt (valueOfDigits r.value (r.kept m)) (2 * binadeSize) with hlow | hhigh
  · exact isShort_of_le hlow
  have hmax : max 1 n ≤ valueOfDigits r.value (r.kept m) := by
    rw [binadeSize_eq] at hhigh
    omega
  have hheld : valueOfDigits 10 (r.kept m) = m := by
    rw [(kept_eq_digits hr hk hle hmax).1, valueOfDigits_digits]
  have hmore := valueOfDigits_le_of_le ((le_eight hr hk).trans (by decide : 8 ≤ 10)) (r.kept m)
  have heven : 2 ∣ m := hshort.two_pow_dvd (j := 0) (by omega)
  apply isShort_of_two_dvd
  · rwa [two_dvd_valueOfDigits_iff (two_dvd_value hr hk) (by decide : 2 ∣ 10), hheld]
  · have hlt := valueOfDigits_kept_lt hr hk hle hn
    rw [binadeSize_eq]
    omega

/-- The number is read back only from its own digits. -/
theorem valueOfDigits_kept_eq_iff :
    valueOfDigits r.value (r.kept m) = n ↔ m = r.asDecimal n := by
  have hten : r.value ≤ 10 := (le_eight hr hk).trans (by decide)
  constructor
  · intro h
    rcases Nat.eq_zero_or_pos n with rfl | hpos
    · rw [asDecimal_zero, Nat.mul_zero] at *
      exact (Nat.mul_eq_zero.1 (Nat.le_zero.1 hle)).resolve_left (by decide)
    · obtain ⟨hkept, hlength⟩ := kept_eq_digits hr hk hle (by omega)
      have hdigits := eq_digits_of_length_eq r.two_le (r.kept_lt m) (by rw [h, hlength])
      rw [asDecimal, ← h, ← hdigits, hkept, valueOfDigits_digits]
  · rintro rfl
    rw [kept_asDecimal hten, valueOfDigits_digits]

/-- The number held is far from overflow. -/
theorem held_lt (hn : n ≤ 2 ^ 53) : m < 2 ^ 1024 := by
  have hlength : (digits r.value n).length ≤ 54 := by
    rw [← Nat.pow_le_pow_iff_right (by decide : 1 < 2)]
    exact (Nat.pow_le_pow_left r.two_le _).trans (pow_length_le hr hk hn)
  have hheld : m < 10 ^ 54 :=
    (length_digits_le_iff (by decide) (by decide)).1
      ((length_digits_held_le hr hk hle).trans hlength)
  have hbits : 10 ^ 54 < 2 ^ 180 := by norm_num
  exact (hheld.trans hbits).trans (pow_lt_pow_right₀ one_lt_two (by decide))

end Held

variable {n : ℕ}

/-- Going to the digits of a number and back restores it exactly where a double holds them. -/
theorem toRat?_converted_iff {x : Double} (hx : x.toRat? = some (n : ℚ)) (hn : n ≤ 2 ^ 53) :
    ((x.digitsAsDecimal r).decimalAsDigits r).toRat? = some (n : ℚ) ↔
      (x.digitsAsDecimal r).toRat? = some (r.asDecimal n : ℚ) := by
  obtain ⟨m, hm, hshort, hle⟩ := Double.exists_ofNat_eq (r.asDecimal n)
  have hlt := held_lt hr hk hle hn
  have hback := isShort_valueOfDigits_kept hr hk hle hshort hn
  have hbacklt := valueOfDigits_kept_lt hr hk hle hn
  have hsum : r.toDouble (r.kept m) = .ofNat (valueOfDigits r.value (r.kept m)) := by
    have hdigits := r.kept_lt m
    rw [hr] at hback hdigits
    rw [toDouble, hr]
    exact Double.ofDigits_eq_ofNat (hk.trans (by decide)) hdigits hback
  rw [r.digitsAsDecimal_of_toRat? hx (by omega), hm, r.decimalAsDigits_ofNat hshort hlt, hsum,
    hback.toRat?_ofNat (Double.lt_two_pow_1024 (by omega)), hshort.toRat?_ofNat hlt,
    Option.some_inj, Option.some_inj, Nat.cast_inj, Nat.cast_inj]
  exact valueOfDigits_kept_eq_iff hr hk hle

/-- Sixteen digits are held, and a one with sixteen zeros. -/
theorem isShort_asDecimal (hn : n ≤ r.value ^ 16) : IsShort (r.asDecimal n) := by
  rcases Nat.lt_or_eq_of_le hn with hlt | rfl
  · have hlength := (length_digits_le_iff r.two_le (by decide)).2 hlt
    have hpow : 10 ^ (digits r.value n).length ≤ 10 ^ 16 :=
      Nat.pow_le_pow_right (by decide) hlength
    have hbound := asDecimal_le hr hk n
    apply isShort_of_le
    rw [binadeSize_eq]
    omega
  · have htwo := r.two_le
    have hvalue : r.asDecimal (r.value ^ 16) = 5 ^ 16 * 2 ^ 16 := by
      rw [asDecimal]
      rw [hr] at htwo ⊢
      interval_cases k
      · omega
      all_goals decide +kernel
    exact ⟨5 ^ 16, 16, by decide, hvalue⟩

/-- Up to sixteen digits nothing is lost. -/
theorem toRat?_converted_of_le {x : Double} (hx : x.toRat? = some (n : ℚ))
    (hn : n ≤ r.value ^ 16) :
    ((x.digitsAsDecimal r).decimalAsDigits r).toRat? = some (n : ℚ) := by
  have hle : n ≤ 2 ^ 53 := by
    refine hn.trans ?_
    rw [hr, ← pow_mul]
    exact Nat.pow_le_pow_right two_pos (by omega)
  have hlt := held_lt hr hk (Nat.mul_le_mul_right (r.asDecimal n) (Nat.le_succ _)) hle
  rw [toRat?_converted_iff hr hk hx hle, r.digitsAsDecimal_of_toRat? hx (by omega)]
  exact (isShort_asDecimal hr hk hn).toRat?_ofNat hlt

end Bits

end Radix

namespace Builtin

/-- The conversions to digits in base 2 and in base 8 are undone just where a double holds the
digits, read as a decimal number, without rounding them. It does so up to `2 ^ 16` and up to
`2 ^ 48`. -/
theorem value_restored_iff {x : Double} {n : ℕ} (hx : x.toRat? = some (n : ℚ))
    (hn : n ≤ 2 ^ 53) :
    ((bindec.value [decbin.value [x]]).toRat? = some (n : ℚ) ↔
      (decbin.value [x]).toRat? = some (Radix.binary.asDecimal n : ℚ)) ∧
    ((octdec.value [decoct.value [x]]).toRat? = some (n : ℚ) ↔
      (decoct.value [x]).toRat? = some (Radix.octal.asDecimal n : ℚ)) ∧
    (n ≤ 2 ^ 16 → (bindec.value [decbin.value [x]]).toRat? = some (n : ℚ)) ∧
    (n ≤ 2 ^ 48 → (octdec.value [decoct.value [x]]).toRat? = some (n : ℚ)) := by
  have hbinary : Radix.binary.value = 2 ^ 1 := rfl
  have hoctal : Radix.octal.value = 2 ^ 3 := rfl
  refine ⟨Radix.toRat?_converted_iff hbinary (by decide) hx hn,
    Radix.toRat?_converted_iff hoctal (by decide) hx hn, fun hle => ?_, fun hle => ?_⟩
  · exact Radix.toRat?_converted_of_le hbinary (by decide) hx hle
  · exact Radix.toRat?_converted_of_le hoctal (by decide) hx hle

/-- A number of 21 binary digits that a double holds. -/
theorem value_restored_million :
    (decbin.value [.ofNat (2 ^ 20)]).toRat? = some (10 ^ 20) ∧
    (bindec.value [decbin.value [.ofNat (2 ^ 20)]]).toRat? = some (2 ^ 20) ∧
    (octdec.value [decoct.value [.ofNat (2 ^ 20)]]).toRat? = some (2 ^ 20) := by
  have hx : (Double.ofNat (2 ^ 20)).toRat? = some ((2 ^ 20 : ℕ) : ℚ) := by decide +kernel
  have hheld : (decbin.value [.ofNat (2 ^ 20)]).toRat? = some (10 ^ 20) := by decide +kernel
  have hdecimal : Radix.binary.asDecimal (2 ^ 20) = 10 ^ 20 := by decide +kernel
  obtain ⟨hbinary, -, -, hoctal⟩ := value_restored_iff hx (by decide)
  rw [hdecimal] at hbinary
  push_cast at hbinary hoctal
  exact ⟨hheld, hbinary.2 hheld, hoctal (by decide)⟩

/-- The least numbers that are not restored: the ones after the first of seventeen digits. -/
theorem value_lost :
    (Double.ofNat (2 ^ 16 + 1)).toRat? = some (2 ^ 16 + 1) ∧
    (bindec.value [decbin.value [.ofNat (2 ^ 16 + 1)]]).toRat? = some (2 ^ 16) ∧
    (Double.ofNat (2 ^ 48 + 1)).toRat? = some (2 ^ 48 + 1) ∧
    (octdec.value [decoct.value [.ofNat (2 ^ 48 + 1)]]).toRat? = some (2 ^ 48) := by
  decide +kernel

end Builtin

end RadixCalc
