import RadixCalc.Proofs.Answer.RoundTrip
import RadixCalc.Proofs.Double.Exact
import RadixCalc.Proofs.Layout.Exactness

/-!
# Reading back in the bit radices

In base 2, 8 or 16 a double in units of the last digit shown has at most 53 significant bits, and so
has every number that begins its digits. Reading the digits back therefore rounds nowhere, and the
value read is the value shown, exactly; only from `2 ^ 1024` units on it is an infinity.

* `isShort_scaled` is the reason: rounding to a digit leaves no more bits than the double had.
* `AnswerReader.RoundsNowhere` says of the steps of a reader that each of them is exact.
* `AnswerReader.read?_display_bits` is the round trip.
-/

namespace RadixCalc

open Double (IsShort isShort_two_pow)

/-! ## Magnitudes in a bit radix -/

/-- In a base that is a power of two, a double in units of a digit is short, however it is
rounded. -/
theorem isShort_scaled {r : Radix} {k : ℕ} (hr : r.value = 2 ^ k) (fraction rank : ℕ) :
    IsShort (Double.scaled r fraction (Double.unitsOfRank rank)) := by
  rw [Double.scaled, hr, ← pow_mul]
  exact ((Double.isShort_unitsOfRank rank).mul_two_pow _).divNearestUp

namespace Layout

section Free

variable {l : Layout} (hfree : l.exactDigits = false)

include hfree

theorem not_isMasked_of_free : ¬l.IsMasked := by
  intro h
  rw [IsMasked, hfree] at h
  exact Bool.false_ne_true h.1

variable {r : Radix} (hr : r.value = l.base) (negative : Bool) (rank : ℕ)

include hr

/-- Without a fixed field the digits shown are those of the rounded value. -/
theorem valueOfDigits_shown_of_free :
    valueOfDigits l.base (l.wholeDigits r (Double.unitsOfRank rank) ++
      l.fractionDigits r (Double.unitsOfRank rank)) =
      l.rounded ((Double.signed negative (Double.unitsOfRank rank) : ℚ) /
        (Double.unitsPerOne : ℚ)) := by
  have hmagnitude := magnitude_eq hr negative (Double.unitsOfRank rank)
  rw [shownMagnitude, if_neg (not_isMasked_of_free hfree)] at hmagnitude
  rw [wholeDigits_append_fractionDigits, ← hmagnitude, ← hr]
  exact valueOfDigits_paddedDigits _ _ _

theorem isShort_shown_of_free {k : ℕ} (hbase : l.base = 2 ^ k) :
    IsShort (valueOfDigits l.base (l.wholeDigits r (Double.unitsOfRank rank) ++
      l.fractionDigits r (Double.unitsOfRank rank))) := by
  have hshort := isShort_scaled (hr.trans hbase) l.fraction rank
  rwa [scaled_eq hr false, ← valueOfDigits_shown_of_free hfree hr false] at hshort

end Free

end Layout

namespace AnswerReader

/-! ## The steps of a reader -/

/-- Reading digits of a base rounds nowhere: neither where the base is multiplied in nor where a
digit is added, as long as the number does not overflow, nor in the power by which the fraction is
divided off. -/
structure RoundsNowhere (base : ℕ) (whole fraction : List ℕ) : Prop where
  product : ∀ front d, front ++ [d] <+: whole ++ fraction →
    valueOfDigits base (front ++ [d]) < 2 ^ 1024 →
    (Double.ofDigits base front * .ofNat base).toRat? =
      some ((valueOfDigits base front * base : ℕ) : ℚ)
  sum : ∀ front, front <+: whole ++ fraction → valueOfDigits base front < 2 ^ 1024 →
    (Double.ofDigits base front).toRat? = some (valueOfDigits base front : ℚ)
  power : ((Double.ofNat base).powNat fraction.length).toRat? =
    some ((base ^ fraction.length : ℕ) : ℚ)

section Steps

variable {k : ℕ} (hk : k ≤ 4)

include hk

theorem ofNat_base_lt : 2 ^ k < 2 ^ 1024 :=
  pow_lt_pow_right₀ one_lt_two (by omega)

variable {whole fraction : List ℕ} (hds : ∀ d ∈ whole ++ fraction, d < 2 ^ k)
  (hshort : IsShort (valueOfDigits (2 ^ k) (whole ++ fraction)))

include hds hshort

theorem ofDigits_front {front : List ℕ} (h : front <+: whole ++ fraction) :
    IsShort (valueOfDigits (2 ^ k) front) ∧
      Double.ofDigits (2 ^ k) front = .ofNat (valueOfDigits (2 ^ k) front) := by
  have hsig : k ≤ significandBits := hk.trans (by decide)
  obtain ⟨rest, hrest⟩ := h
  rw [← hrest] at hds hshort
  have hfront := hshort.of_append fun d hd => hds d (List.mem_append_right _ hd)
  exact ⟨hfront, Double.ofDigits_eq_ofNat hsig (fun d hd => hds d (List.mem_append_left _ hd))
    hfront⟩

theorem roundsNowhere (hlen : fraction.length ≤ 64) : RoundsNowhere (2 ^ k) whole fraction := by
  have hbase := ofNat_base_lt hk
  refine ⟨?_, ?_, ?_⟩
  · intro front d hfront hlt
    rw [valueOfDigits_append_singleton] at hlt
    obtain ⟨hshort', hvalue⟩ :=
      ofDigits_front hk hds hshort ((List.prefix_append _ _).trans hfront)
    rw [hvalue, Double.ofNat_mul hshort' (isShort_two_pow k) hbase (Nat.two_pow_pos k)]
    exact (hshort'.mul_two_pow k).toRat?_ofNat ((Nat.le_add_right _ _).trans_lt hlt)
  · intro front hfront hlt
    obtain ⟨hshort', hvalue⟩ := ofDigits_front hk hds hshort hfront
    rw [hvalue]
    exact hshort'.toRat?_ofNat hlt
  · have hexponent : k * fraction.length < 1024 := by nlinarith
    rw [Double.powNat_two_pow hexponent, ← pow_mul]
    exact (isShort_two_pow _).toRat?_ofNat (pow_lt_pow_right₀ one_lt_two hexponent)

/-! ## The value read -/

variable {r : Radix} (hr : r.value = 2 ^ k) (hlen : fraction.length ≤ 64) (negative : Bool)

include hr hlen

/-- Digits of a short number are read as the number they stand for, divided by the power of the base
once; neither the number nor the power is rounded. -/
theorem valueOf_eq_div :
    valueOf r negative whole fraction =
      if negative then
        -(.ofNat (valueOfDigits (2 ^ k) (whole ++ fraction)) / .ofNat (2 ^ (k * fraction.length)))
      else
        .ofNat (valueOfDigits (2 ^ k) (whole ++ fraction)) / .ofNat (2 ^ (k * fraction.length)) := by
  have hexponent : k * fraction.length < 1024 := by nlinarith
  have hall : r.toDouble (whole ++ fraction) =
      .ofNat (valueOfDigits (2 ^ k) (whole ++ fraction)) := by
    rw [Radix.toDouble, hr]
    exact (ofDigits_front hk hds hshort List.prefix_rfl).2
  have hmagnitude : (if fraction.isEmpty then r.toDouble (whole ++ fraction)
      else r.toDouble (whole ++ fraction) / (Double.ofNat r.value).powNat fraction.length) =
      .ofNat (valueOfDigits (2 ^ k) (whole ++ fraction)) / .ofNat (2 ^ (k * fraction.length)) := by
    rw [hall, hr, Double.powNat_two_pow hexponent]
    split
    · next hempty =>
      rw [List.isEmpty_iff.1 hempty, List.length_nil, Nat.mul_zero, pow_zero, Double.div_ofNat_one]
    · rfl
  rw [valueOf, hmagnitude]

/-- As long as the number does not overflow, that is the number itself. -/
theorem toRat?_valueOf (hlt : valueOfDigits (2 ^ k) (whole ++ fraction) < 2 ^ 1024) :
    (valueOf r negative whole fraction).toRat? =
      some ((if negative then -1 else 1) *
        ((valueOfDigits (2 ^ k) (whole ++ fraction) : ℚ) / (2 ^ k) ^ fraction.length)) := by
  have hexponent : k * fraction.length < 1024 := by nlinarith
  have hmagnitude := Double.toRat?_ofNat_div hshort hlt hexponent
  rw [pow_mul (2 : ℚ)] at hmagnitude
  rw [valueOf_eq_div hk hds hshort hr hlen]
  cases negative with
  | false => simpa using hmagnitude
  | true => simpa using Double.toRat?_neg hmagnitude

/-- Digits of a short number that overflows are read as an infinity. -/
theorem valueOf_of_le (hle : 2 ^ 1024 ≤ valueOfDigits (2 ^ k) (whole ++ fraction)) :
    valueOf r negative whole fraction = .infinity negative := by
  have hexponent : k * fraction.length < 1024 := by nlinarith
  obtain ⟨power, hpower, -⟩ := (isShort_two_pow (k * fraction.length)).exists_ofNat
    (pow_lt_pow_right₀ one_lt_two hexponent)
  rw [valueOf_eq_div hk hds hshort hr hlen, Double.ofNat_of_le hle, hpower,
    Double.infinity_div_finite]
  cases negative <;> rfl

end Steps

/-! ## The round trip -/

theorem exists_two_pow {base : ℕ} (h : base = 2 ∨ base = 8 ∨ base = 16) :
    ∃ k ≤ 4, base = 2 ^ k := by
  rcases h with rfl | rfl | rfl
  · exact ⟨1, by decide, rfl⟩
  · exact ⟨3, by decide, rfl⟩
  · exact ⟨4, by decide, rfl⟩

/-- In base 2, 8 or 16 the text of a finite number is read back as the number shown, exactly: no
digit read, no power and no division rounds. From `2 ^ 1024` units of the last digit on it is read
as an infinity of the sign of the number. -/
theorem read?_display_bits {l : Layout} (hb : l.base = 2 ∨ l.base = 8 ∨ l.base = 16)
    (hi : l.integers ≤ 64) (hf : l.fraction ≤ 64) (hfree : l.exactDigits = false) {x : Double}
    {q : ℚ} (hx : x.toRat? = some q) :
    ∃ text reader value whole fraction, l.display x = .ok text ∧
      AnswerReader.make l.base .standard = .ok reader ∧
      reader.read? text = some ⟨value, []⟩ ∧
      (l.rounded q < 2 ^ 1024 → value.toRat? =
        some ((if q < 0 then -1 else 1) * ((l.rounded q : ℚ) / (l.base : ℚ) ^ l.fraction))) ∧
      (2 ^ 1024 ≤ l.rounded q → value = .infinity (decide (q < 0))) ∧
      value = valueOfShown l.base (decide (l.ShowsMinus q)) whole fraction ∧
      valueOfDigits l.base (whole ++ fraction) = l.rounded q ∧ fraction.length = l.fraction ∧
      RoundsNowhere l.base whole fraction := by
  obtain ⟨k, hk, hbase⟩ := exists_two_pow hb
  have hrange : 2 ≤ l.base ∧ l.base ≤ 36 := by omega
  cases x with
  | nan => cases hx
  | infinity negative => cases hx
  | finite negative rank =>
    rw [Double.toRat?_finite] at hx
    cases hx
    let r : Radix := ⟨l.base, hrange.1, hrange.2⟩
    let units := Double.unitsOfRank rank
    let whole := l.wholeDigits r units
    let fraction := l.fractionDigits r units
    have hok : l.radix = .ok r := Layout.radix_eq_ok hrange (by rw [maxDigits]; omega)
    obtain ⟨radix?, hmake, hradix⟩ := Locale.exists_reader .standard hrange (.inl rfl)
    have hskips : Skips ⟨radix?, .standard⟩ ['_'] := .inl rfl
    have hread := read?_displayFinite Locale.isPlain_standard hskips hradix negative units
    have hminus := Layout.showsMinus_iff (l := l) (r := r) rfl negative units
    have hdigits := Layout.valueOfDigits_shown_of_free hfree (r := r) rfl negative rank
    have hshort := Layout.isShort_shown_of_free hfree (r := r) rfl rank hbase
    generalize (Double.signed negative units : ℚ) / (Double.unitsPerOne : ℚ) = q at *
    have hds : ∀ d ∈ whole ++ fraction, d < l.base := by
      rw [l.wholeDigits_append_fractionDigits]
      exact l.shownDigits_lt r units
    have hlen : fraction.length ≤ 64 := (l.length_fractionDigits r units).trans_le hf
    rw [Bool.eq_iff_iff.2 (hminus.trans decide_eq_true_iff.symm)] at hread
    refine ⟨_, ⟨radix?, .standard⟩, _, whole, fraction, ?_, hmake, hread, ?_, ?_,
      valueOf_eq r _ _ _, hdigits, l.length_fractionDigits r units, ?_⟩
    · rw [Layout.display, hok]
      exact congrArg Except.ok (putMarks_neutral _).symm
    · intro hlt
      have hcast : (l.base : ℚ) = 2 ^ k := by exact_mod_cast congrArg (Nat.cast (R := ℚ)) hbase
      rw [hbase] at hds hshort hdigits
      rw [toRat?_valueOf hk hds hshort hbase hlen _ (hdigits.trans_lt hlt), hdigits,
        l.length_fractionDigits, hcast]
      by_cases hzero : l.rounded q = 0
      · simp [hzero]
      · simp [Layout.showsMinus_iff_neg (Layout.not_isMasked_of_free hfree) hzero]
    · intro hle
      have hne : l.rounded q ≠ 0 := (Nat.lt_of_lt_of_le (pow_pos two_pos 1024) hle).ne'
      rw [hbase] at hds hshort hdigits
      rw [valueOf_of_le hk hds hshort hbase hlen _ (hle.trans_eq hdigits.symm)]
      simp only [Layout.showsMinus_iff_neg (Layout.not_isMasked_of_free hfree) hne]
    · rw [hbase] at hds hshort ⊢
      exact roundsNowhere hk hds hshort hlen

/-- -22.375 with one hexadecimal digit behind the point. -/
theorem read?_display_bits_hexadecimal :
    (⟨16, 1, 1, 0, false, false⟩ : Layout).display (.ofBits 0xC036600000000000) =
      .ok ['-', '1', '6', '.', '6'] ∧
    ∃ reader value, AnswerReader.make 16 .standard = .ok reader ∧
      reader.read? ['-', '1', '6', '.', '6'] = some ⟨value, []⟩ ∧
      value.toRat? = some (-179 / 8) := by
  have hdisplay : (⟨16, 1, 1, 0, false, false⟩ : Layout).display (.ofBits 0xC036600000000000) =
      .ok ['-', '1', '6', '.', '6'] := by decide +kernel
  have hvalue : (Double.ofBits 0xC036600000000000).toRat? = some (-179 / 8) := by decide +kernel
  have hrounded : (⟨16, 1, 1, 0, false, false⟩ : Layout).rounded (-179 / 8) = 358 := by
    rw [Layout.rounded, Nat.floor_eq_iff (by positivity)]
    norm_num [abs_div]
  obtain ⟨text, reader, value, whole, fraction, htext, hmake, hread, hexact, -⟩ :=
    read?_display_bits (l := ⟨16, 1, 1, 0, false, false⟩) (.inr (.inr rfl)) (by decide)
      (by decide) rfl hvalue
  rw [hdisplay] at htext
  cases htext
  have hlt : 358 < 2 ^ 1024 :=
    lt_trans (by decide : 358 < 2 ^ 9) (pow_lt_pow_right₀ one_lt_two (by decide))
  rw [hrounded] at hexact
  refine ⟨hdisplay, reader, value, hmake, hread, (hexact hlt).trans ?_⟩
  norm_num

end AnswerReader
end RadixCalc
