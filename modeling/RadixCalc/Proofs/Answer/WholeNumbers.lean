import RadixCalc.Proofs.Answer.Tolerance

/-!
# Reading back whole numbers in base ten

The text of a whole number in base ten has all its digits, and its reader rounds at every digit from
`2 ^ 53` on. Up to `2 ^ 54` no rounding is lost, because such a number is even where it is not below
`2 ^ 53`. From there on it is rounded twice at the last digit, once where ten is multiplied in and
once where the digit is added, and both may be ties that go the same way: the number read is the
next double below where the number ends in 12 and the next one above where it ends in 36, counted
modulo 40 (`AnswerReader.misreading`).

* `Double.ofDigits_eq_ofNat_of_le` and `Double.ofDigits_ten_append` are exact up to the last digit.
* `AnswerReader.exists_ofDigits_ten` is the number read, below `2 ^ 55`.
* `AnswerReader.read?_display_whole` says how a number is read back, and
  `AnswerReader.read?_display_misread` is the least one that is not.
-/

namespace RadixCalc

namespace Double

attribute [local irreducible] unitsPerOne

/-- A short number that is not below `2 ^ 53` has low bits that are zero. -/
theorem IsShort.two_pow_dvd {n j : ℕ} (h : IsShort n) (hle : 2 * binadeSize * 2 ^ j ≤ n) :
    2 ^ (j + 1) ∣ n := by
  obtain ⟨m, e, hm, rfl⟩ := h
  rcases Nat.lt_or_ge j e with hlt | hge
  · exact Dvd.dvd.mul_left (pow_dvd_pow 2 hlt) m
  · -- The number is the bound itself.
    have hupper : m * 2 ^ e ≤ 2 * binadeSize * 2 ^ j :=
      Nat.mul_le_mul hm (Nat.pow_le_pow_right two_pos hge)
    rw [le_antisymm hupper hle, pow_succ', Nat.mul_assoc]
    exact Nat.mul_dvd_mul_left 2 (Nat.dvd_mul_left _ _)

theorem lt_two_pow_1024 {n : ℕ} (h : n ≤ 2 ^ 60) : n < 2 ^ 1024 :=
  h.trans_lt (pow_lt_pow_right₀ one_lt_two (by decide))

/-- Digits are added up exactly as long as the number has at most 53 bits. -/
theorem ofDigits_eq_ofNat_of_le {base : ℕ} (hb : 2 ≤ base ∧ base ≤ 36) {ds : List ℕ}
    (hds : ∀ d ∈ ds, d < base) (h : valueOfDigits base ds ≤ 2 * binadeSize) :
    ofDigits base ds = ofNat (valueOfDigits base ds) := by
  induction ds using List.reverseRecOn with
  | nil => exact ofNat_zero.symm
  | append_singleton ds d ih =>
    have hd : d < base := hds d (by simp)
    rw [valueOfDigits_append_singleton] at h ⊢
    have hfront : valueOfDigits base ds ≤ valueOfDigits base ds * base :=
      Nat.le_mul_of_pos_right _ (by omega)
    have hstep : ofDigits base (ds ++ [d]) = ofDigits base ds * ofNat base + ofNat d :=
      List.foldl_append ..
    have ih := ih (fun d' hd' => hds d' (by simp [hd'])) (by omega)
    obtain ⟨hbase, hbase'⟩ := isShort_and_lt_of_le hb.2
    obtain ⟨hdigit, hdigit'⟩ := isShort_and_lt_of_le (n := d) (by omega)
    rw [hstep, ih, ofNat_mul (isShort_of_le (by omega)) hbase hbase' (by omega),
      ofNat_add (isShort_of_le (by omega)) hdigit hdigit']

/-- Up to 53 bits before the last digit only this digit rounds. -/
theorem ofDigits_ten_append {ds : List ℕ} {d : ℕ} (hds : ∀ d' ∈ ds ++ [d], d' < 10)
    (h : valueOfDigits 10 ds ≤ 2 * binadeSize) :
    ofDigits 10 (ds ++ [d]) = ofNat (valueOfDigits 10 ds * 10) + ofNat d := by
  have hstep : ofDigits 10 (ds ++ [d]) = ofDigits 10 ds * ofNat 10 + ofNat d :=
    List.foldl_append ..
  obtain ⟨hten, hten'⟩ := isShort_and_lt_of_le (n := 10) (by omega)
  rw [hstep, ofDigits_eq_ofNat_of_le (by omega) (fun d' hd' => hds d' (by simp [hd'])) h,
    ofNat_mul (isShort_of_le h) hten hten' (by omega)]

end Double

open Double (IsShort isShort_of_le)

namespace AnswerReader

/-! ## The last digit -/

/-- By how much a whole number below `2 ^ 55` is misread in base ten. -/
def misreading (n : ℕ) : ℤ :=
  if n < 2 ^ 54 then 0 else if n % 40 = 12 then -4 else if n % 40 = 36 then 4 else 0

section LastDigit

variable {q d : ℕ} (hd : d < 10)

include hd

/-- Ten times an odd number is a tie from `2 ^ 54` on, and so is its sum with the digit. -/
theorem exists_ofNat_add_of_odd (hodd : q % 2 = 1) (hlow : 2 ^ 54 ≤ q * 10 + d)
    (hhigh : q * 10 + d < 2 ^ 55) (hdvd : 4 ∣ q * 10 + d) :
    ∃ k : ℕ, Double.ofNat (q * 10) + .ofNat d = .ofNat k ∧ IsShort k ∧ k ≤ 2 ^ 55 ∧
      (k : ℤ) = (q * 10 + d : ℕ) + misreading (q * 10 + d) := by
  obtain ⟨m, hm⟩ : ∃ m, q * 10 = (2 * m + 1) * 2 ^ 1 := ⟨5 * q / 2, by omega⟩
  obtain ⟨m', hm'⟩ : ∃ m', (m + m % 2) * 2 ^ 2 + d = (2 * m' + 1) * 2 ^ 1 :=
    ⟨m + m % 2 + d / 4, by omega⟩
  have hproduct := Double.ofNat_tie (m := m) (by rw [binadeSize_eq]; omega)
    (by rw [binadeSize_eq]; omega) 1
  have hsum := Double.ofNat_tie (m := m') (by rw [binadeSize_eq]; omega)
    (by rw [binadeSize_eq]; omega) 1
  have hshort : IsShort ((m + m % 2) * 2 ^ 2) := ⟨_, 2, by rw [binadeSize_eq]; omega, rfl⟩
  obtain ⟨hdigit, hdigit'⟩ := Double.isShort_and_lt_of_le (n := d) (by omega)
  refine ⟨(m' + m' % 2) * 2 ^ 2, ?_, ⟨_, 2, by rw [binadeSize_eq]; omega, rfl⟩, by omega, ?_⟩
  · rw [hm, hproduct, Double.ofNat_add hshort hdigit hdigit', hm', hsum]
  · unfold misreading
    split_ifs <;> omega

/-- Otherwise ten is multiplied in exactly, and so nothing is misread. -/
theorem isShort_mul_ten (h : q * 10 + d < 2 ^ 54 ∨ q % 2 = 0) (hhigh : q * 10 + d < 2 ^ 55) :
    IsShort (q * 10) ∧ misreading (q * 10 + d) = 0 := by
  constructor
  · rcases h with h | h
    · exact ⟨q * 5, 1, by rw [binadeSize_eq]; omega, by omega⟩
    · exact ⟨q / 2 * 5, 2, by rw [binadeSize_eq]; omega, by omega⟩
  · unfold misreading
    split_ifs <;> omega

end LastDigit

/-- The number that is read from the digits of a double below `2 ^ 55` in base ten. -/
theorem exists_ofDigits_ten {ds : List ℕ} (hds : ∀ d ∈ ds, d < 10)
    (hshort : IsShort (valueOfDigits 10 ds)) (hlt : valueOfDigits 10 ds < 2 ^ 55) :
    ∃ k : ℕ, Double.ofDigits 10 ds = .ofNat k ∧ IsShort k ∧ k ≤ 2 ^ 55 ∧
      (k : ℤ) = valueOfDigits 10 ds + misreading (valueOfDigits 10 ds) := by
  induction ds using List.reverseRecOn with
  | nil => exact ⟨0, Double.ofNat_zero.symm, isShort_of_le (by decide), by omega, rfl⟩
  | append_singleton ds d _ =>
    have hd : d < 10 := hds d (by simp)
    rw [valueOfDigits_append_singleton] at hshort hlt ⊢
    rw [Double.ofDigits_ten_append hds (by rw [binadeSize_eq]; omega)]
    by_cases h : valueOfDigits 10 ds * 10 + d < 2 ^ 54 ∨ valueOfDigits 10 ds % 2 = 0
    · obtain ⟨hproduct, hzero⟩ := isShort_mul_ten hd h hlt
      obtain ⟨hdigit, hdigit'⟩ := Double.isShort_and_lt_of_le (n := d) (by omega)
      refine ⟨_, Double.ofNat_add hproduct hdigit hdigit', hshort, hlt.le, ?_⟩
      rw [hzero, add_zero]
    · have hdvd : 2 ^ (1 + 1) ∣ valueOfDigits 10 ds * 10 + d :=
        hshort.two_pow_dvd (by rw [binadeSize_eq]; omega)
      exact exists_ofNat_add_of_odd hd (by omega) (by omega) hlt (by omega)

/-! ## Whole numbers -/

/-- A double rounded to a whole number is short. -/
theorem isShort_rounded {l : Layout} (hf : l.fraction = 0) {x : Double} {q : ℚ}
    (hx : x.toRat? = some q) : IsShort (l.rounded q) := by
  obtain ⟨negative, rank, rfl, rfl⟩ := Double.exists_finite_of_toRat? hx
  have hbinary := Layout.scaled_eq (l := ⟨2, 0, 0, 0, false, false⟩) (r := .binary) rfl negative
    (Double.unitsOfRank rank)
  have hrounded : l.rounded ((Double.signed negative (Double.unitsOfRank rank) : ℚ) /
      (Double.unitsPerOne : ℚ)) = Double.scaled .binary 0 (Double.unitsOfRank rank) := by
    rw [hbinary, Layout.rounded, Layout.rounded, hf, pow_zero, pow_zero]
  rw [hrounded]
  exact isShort_scaled (k := 1) rfl 0 rank

/-- Base ten has no fixed fields. -/
theorem not_isMasked_of_ten {l : Layout} (hb : l.base = 10) : ¬l.IsMasked := by
  rintro ⟨-, hbits⟩
  omega

theorem misreading_of_lt {n : ℕ} (h : n < 2 ^ 54) : misreading n = 0 :=
  if_pos h

/-- Whole digits alone are read as the sum of their values. -/
theorem valueOf_nil (r : Radix) (negative : Bool) (whole : List ℕ) :
    valueOf r negative whole [] =
      if negative then -r.toDouble whole else r.toDouble whole := by
  rw [valueOf, List.append_nil]
  rfl

theorem ReadFrom.toRat?_whole {l : Layout} {q : ℚ} {r : Radix} {whole fraction : List ℕ}
    {value : Double} (h : ReadFrom l q r whole fraction value) (hb : l.base = 10)
    (hf : l.fraction = 0) (hshort : IsShort (l.rounded q)) (hlt : l.rounded q < 2 ^ 55) :
    value.toRat? =
      some ((if q < 0 then -1 else 1) * ((l.rounded q : ℚ) + misreading (l.rounded q))) := by
  have hmasked := not_isMasked_of_ten hb
  have hmagnitude := Layout.shownMagnitude_of_not_isMasked hmasked q
  have hnil : fraction = [] := List.length_eq_zero_iff.1 (h.length_fraction.trans hf)
  have hdigits := h.digits_lt
  have hvalue := h.valueOfDigits_eq
  rw [hnil, List.append_nil, hb] at hdigits hvalue
  rw [hmagnitude] at hvalue
  rw [← hvalue] at hshort hlt
  obtain ⟨k, hk, hkshort, hkle, hkvalue⟩ := exists_ofDigits_ten hdigits hshort hlt
  rw [hvalue] at hkvalue
  have hread : (r.toDouble whole).toRat? = some (k : ℚ) := by
    rw [Radix.toDouble, h.base_eq, hb, hk]
    exact hkshort.toRat?_ofNat (Double.lt_two_pow_1024 (hkle.trans (by omega)))
  have hcast : (k : ℚ) = (l.rounded q : ℚ) + misreading (l.rounded q) := by exact_mod_cast hkvalue
  rw [h.value_eq, hnil, valueOf_nil, ← hcast]
  by_cases hzero : l.rounded q = 0
  · have hk0 : (k : ℚ) = 0 := by
      rw [hcast, hzero, misreading_of_lt (by omega)]
      simp
    rw [hk0] at hread ⊢
    have hneg := Double.toRat?_neg hread
    split <;> simpa using ‹_›
  · have hminus := Layout.showsMinus_iff_neg hmasked hzero
    by_cases hneg : q < 0
    · simpa [hminus, hneg] using Double.toRat?_neg hread
    · simpa [hminus, hneg] using hread

/-- A number is read back in base ten as its whole number of units, a half going away from zero,
exactly so below `2 ^ 54`. From there on up to `2 ^ 55` it is misread by four just where it ends in
12 or 36 modulo 40, and further up its error stays within one part in `10 ^ 12`. -/
theorem read?_display_whole {l : Layout} (hb : l.base = 10) (hi : l.integers ≤ 64)
    (hf : l.fraction = 0) {x : Double} {q : ℚ} (hx : x.toRat? = some q) :
    ∃ text reader value, l.display x = .ok text ∧
      AnswerReader.make 10 .standard = .ok reader ∧
      reader.read? text = some ⟨value, []⟩ ∧
      ∀ n, n = ⌊|q| + 1 / 2⌋₊ →
        (n < 2 ^ 55 →
          value.toRat? = some ((if q < 0 then -1 else 1) * ((n : ℚ) + misreading n))) ∧
        (n < 2 ^ 54 → value.toRat? = some ((if q < 0 then -1 else 1) * (n : ℚ))) ∧
        (n ≤ 2 ^ 1023 → ∃ v, value.toRat? = some v ∧
          |v - (if q < 0 then -1 else 1) * (n : ℚ)| ≤ 1 / 10 ^ 12 * n) := by
  obtain ⟨text, reader, value, r, whole, fraction, hdisplay, hmake, hread, hfrom⟩ :=
    exists_read?_display (by omega) hi (by omega) hx
  have hmasked := not_isMasked_of_ten hb
  have hrounded : l.rounded q = ⌊|q| + 1 / 2⌋₊ := by
    rw [Layout.rounded, hf, pow_zero, mul_one]
  have hwhole := hfrom.toRat?_whole hb hf (isShort_rounded hf hx)
  refine ⟨text, reader, value, hdisplay, hb ▸ hmake, hread, ?_⟩
  rintro n rfl
  rw [← hrounded]
  refine ⟨hwhole, fun hlt => ?_, fun hle => ?_⟩
  · rw [hwhole (by omega), misreading_of_lt hlt, Int.cast_zero, add_zero]
  · obtain ⟨v, hv, herror⟩ := hfrom.exists_toRat? hmasked hi (by omega) hle
    refine ⟨v, hv, ?_⟩
    rw [l.abs_shownValue, Layout.shownValue, hf, pow_zero, div_one] at herror
    exact herror

/-- A number that is read as the next double towards zero. -/
theorem read?_display_whole_negative :
    (⟨10, 1, 0, 0, false, false⟩ : Layout).display (.ofBits 0xc350000000000007) =
      .ok "-18014398509482012".toList ∧
    ∃ reader value, AnswerReader.make 10 .standard = .ok reader ∧
      reader.read? "-18014398509482012".toList = some ⟨value, []⟩ ∧
      value.toRat? = some (-18014398509482008) := by
  have hdisplay : (⟨10, 1, 0, 0, false, false⟩ : Layout).display (.ofBits 0xc350000000000007) =
      .ok "-18014398509482012".toList := by decide +kernel
  have hvalue : (Double.ofBits 0xc350000000000007).toRat? = some (-18014398509482012) := by
    decide +kernel
  have hfloor : 18014398509482012 = ⌊|(-18014398509482012 : ℚ)| + 1 / 2⌋₊ := by norm_num
  obtain ⟨text, reader, value, htext, hmake, hread, hexact⟩ :=
    read?_display_whole (l := ⟨10, 1, 0, 0, false, false⟩) rfl (by decide) rfl hvalue
  rw [hdisplay] at htext
  cases htext
  refine ⟨hdisplay, reader, value, hmake, hread, ((hexact _ hfloor).1 (by omega)).trans ?_⟩
  norm_num [misreading]

/-- The least whole number that is not read back. -/
theorem read?_display_misread :
    (⟨10, 1, 0, 0, false, false⟩ : Layout).display (.ofNat 18014398509481996) =
      .ok "18014398509481996".toList ∧
    (Double.ofNat 18014398509481996).toRat? = some 18014398509481996 ∧
    AnswerReader.make 10 .standard = .ok ⟨some .decimal, .standard⟩ ∧
    AnswerReader.read? ⟨some .decimal, .standard⟩ "18014398509481996".toList =
      some ⟨.ofNat 18014398509482000, []⟩ ∧
    (Double.ofNat 18014398509482000).toRat? ≠ some 18014398509481996 := by
  decide +kernel

end AnswerReader

end RadixCalc
