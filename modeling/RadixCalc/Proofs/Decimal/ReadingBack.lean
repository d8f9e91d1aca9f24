import RadixCalc.Decimal.Shortest
import RadixCalc.Proofs.Digits
import RadixCalc.Proofs.Double.Exact

/-!
# The text of a double reads back

The text of a finite double is a run of figures, with a point among them or without, and these
figures stand for a decimal whose nearest double is the double itself: none of the steps on the way
to the text leaves it. The search for the fewest digits only takes what reads back, the exact
expansion behind it does, and neither the zeros that end a fraction nor the point change the value.

* `Double.ofDecimal_neg_eq` says that the shortcut for numerals that vanish only anticipates the
  rounding; so zeros at the end of a fraction can be dropped (`Double.ofDecimal_mul_ten_pow`).
* `Decimal.toDouble_shortest` is the search and `Decimal.spells_positional` the writing;
  `Decimal.Spells` is what a text and a double have to do with each other.
* `Double.spells_toText` puts the two together.
-/

namespace RadixCalc

/-! ## Decimals that vanish -/

theorem nearestRank_of_two_mul_lt {num den : ℕ} (h : 2 * num < den) : nearestRank num den = 0 := by
  have hfloor : num / den = 0 := Nat.div_eq_of_lt (by omega)
  have hexponent : binadeExponent 0 = 0 := by
    rw [binadeExponent, Nat.log2_zero, Nat.zero_sub]
  rw [nearestRank, hfloor, hexponent]
  simp only [Nat.zero_mul, Nat.zero_add, Nat.pow_zero, Nat.mul_one]
  rw [divNearestEven, hfloor, Nat.mod_eq_of_lt (by omega)]
  exact if_pos (.inl h)

namespace Double

theorem ofUnits_of_two_mul_lt (negative : Bool) {num den : ℕ} (h : 2 * num < den) :
    ofUnits negative num den = zero negative := by
  rw [ofUnits, nearestRank_of_two_mul_lt h]
  rfl

/-- A power of ten has more than three bits for each of its zeros. -/
theorem two_pow_le_ten_pow {bits zeros : ℕ} (h : bits ≤ 3 * zeros) : 2 ^ bits ≤ 10 ^ zeros := by
  calc 2 ^ bits ≤ 2 ^ (3 * zeros) := Nat.pow_le_pow_right two_pos h
    _ = (2 ^ 3) ^ zeros := pow_mul 2 3 zeros
    _ ≤ 10 ^ zeros := Nat.pow_le_pow_left (by decide) zeros

/-- What is settled as vanishing is far below half of the smallest magnitude. -/
theorem two_mul_lt_of_log2_le {coefficient places : ℕ}
    (h : coefficient.log2 + 1 + 1080 ≤ 3 * places) :
    2 * (coefficient * unitsPerOne) < 10 ^ places := by
  have hcoefficient : coefficient < 2 ^ (coefficient.log2 + 1) := Nat.lt_log2_self
  calc 2 * (coefficient * unitsPerOne)
      < 2 * (2 ^ (coefficient.log2 + 1) * unitsPerOne) :=
        (Nat.mul_lt_mul_left two_pos).2 ((Nat.mul_lt_mul_right unitsPerOne_pos).2 hcoefficient)
    _ = 2 ^ (coefficient.log2 + 1 + unitHalvings + 1) := by
        rw [unitsPerOne_eq, ← pow_add, ← pow_succ']
    _ ≤ 10 ^ places := two_pow_le_ten_pow (by rw [unitHalvings]; omega)

theorem ofUnits_zero (negative : Bool) {den : ℕ} (h : 0 < den) :
    ofUnits negative 0 den = zero negative :=
  ofUnits_of_two_mul_lt negative (by omega)

theorem ofDecimal_zero (negative : Bool) (exponent : ℤ) :
    ofDecimal negative 0 exponent = zero negative :=
  if_pos rfl

/-- A numeral with digits behind the point is rounded from its exact value. -/
theorem ofDecimal_neg_eq (negative : Bool) (coefficient places : ℕ) :
    ofDecimal negative coefficient (-places) =
      ofUnits negative (coefficient * unitsPerOne) (10 ^ places) := by
  have hten : 0 < 10 ^ places := Nat.pow_pos (by decide)
  unfold ofDecimal
  split_ifs with hzero hover hwhole hvanish
  · rw [hzero, Nat.zero_mul, ofUnits_zero negative hten]
  · exact absurd hover (by rw [decimalOverflow]; omega)
  · obtain rfl : places = 0 := by omega
    simp
  · exact (ofUnits_of_two_mul_lt negative (two_mul_lt_of_log2_le (by omega))).symm
  · rw [neg_neg, Int.toNat_natCast]

/-- Zeros at the end of a fraction change no value. -/
theorem ofDecimal_mul_ten_pow (negative : Bool) (coefficient places zeros : ℕ) :
    ofDecimal negative (coefficient * 10 ^ zeros) (-(places + zeros : ℕ)) =
      ofDecimal negative coefficient (-places) := by
  have hscale := ofUnits_mul_mul negative (coefficient * unitsPerOne) (10 ^ places)
    (Nat.pow_pos (by decide) : 0 < 10 ^ zeros)
  rw [ofDecimal_neg_eq, ofDecimal_neg_eq, Nat.mul_right_comm, pow_add, hscale]

/-- Digits before the point that are zeros by the exponent can be written out. -/
theorem ofDecimal_mul_ten_pow_zero (negative : Bool) (coefficient : ℕ) {exponent : ℤ}
    (h : 0 ≤ exponent) (hlt : exponent < decimalOverflow) :
    ofDecimal negative (coefficient * 10 ^ exponent.toNat) 0 =
      ofDecimal negative coefficient exponent := by
  have hten : 10 ^ exponent.toNat ≠ 0 := (Nat.pow_pos (by decide)).ne'
  unfold ofDecimal
  by_cases hzero : coefficient = 0
  · rw [if_pos hzero, if_pos (by rw [hzero, Nat.zero_mul])]
  · rw [if_neg hzero, if_neg (Nat.mul_ne_zero hzero hten), if_neg (by decide), if_pos le_rfl,
      if_neg (not_le.2 hlt), if_pos h]
    simp

end Double

/-! ## The search for the fewest digits -/

namespace Decimal

/-- What the search takes reads back. -/
theorem toDouble_of_readingBack? {rank : ℕ} {leading : ℤ} {count : ℕ} {d : Decimal}
    (h : readingBack? rank leading count = some d) : d.toDouble = Double.ofRank false rank := by
  unfold readingBack? at h
  simp only at h
  split_ifs at h with hbelow habove
  · cases h
    simp only [Bool.and_eq_true, decide_eq_true_eq] at hbelow
    exact hbelow.1
  · cases h
    simpa using habove

/-- The exact expansion reads back. -/
theorem toDouble_exact (rank : Fin rankCount) :
    (exact (Double.unitsOfRank rank)).toDouble = Double.finite false rank := by
  have hten : 10 ^ Double.unitHalvings = 1 * (5 ^ Double.unitHalvings * Double.unitsPerOne) := by
    rw [Nat.one_mul, Double.unitsPerOne_eq, ← mul_pow]
    simp only [Nat.reduceMul]
  have hscale := Double.ofUnits_mul_mul false (Double.unitsOfRank rank) 1
    (Nat.mul_pos (Nat.pow_pos (by decide)) Double.unitsPerOne_pos :
      0 < 5 ^ Double.unitHalvings * Double.unitsPerOne)
  rw [exact, toDouble, Double.ofDecimal_neg_eq, hten, Nat.mul_assoc, hscale,
    Double.ofUnits_unitsOfRank]

theorem toDouble_shortest (rank : Fin rankCount) :
    (shortest rank).toDouble = Double.finite false rank := by
  unfold shortest
  simp only
  cases hfound : (List.range' 1 17).findSome?
      (readingBack? rank (magnitudeExponent (Double.unitsOfRank rank))) with
  | none => exact toDouble_exact rank
  | some d =>
    obtain ⟨count, -, hd⟩ := List.exists_of_findSome?_eq_some hfound
    rw [Option.getD_some, toDouble_of_readingBack? hd, Double.ofRank, dif_pos rank.isLt]

end Decimal

/-! ## Figures -/

theorem figureValue_digitChar : ∀ d < 10, (digitChar d).toNat - '0'.toNat = d := by
  decide

theorem isDigit_digitChar : ∀ d < 10, (digitChar d).isDigit = true := by
  decide

theorem digits_lt_ten (n : ℕ) : ∀ d ∈ digits 10 n, d < 10 :=
  digits_lt (by decide)

theorem numeral_ne_nil (n : ℕ) : numeral 10 n ≠ [] := by
  rw [← List.length_pos_iff, numeral, List.length_map]
  exact length_digits_pos (by decide) n

theorem isDigit_of_mem_numeral {n : ℕ} {c : Char} (hc : c ∈ numeral 10 n) : c.isDigit = true := by
  obtain ⟨d, hd, rfl⟩ := List.mem_map.1 hc
  exact isDigit_digitChar d (digits_lt_ten n d hd)

theorem valueOfFigures_numeral (n : ℕ) : valueOfFigures (numeral 10 n) = n := by
  have hfigures : figureValues (numeral 10 n) = digits 10 n := by
    rw [figureValues, numeral, List.map_map]
    refine (List.map_congr_left fun d hd => ?_).trans (List.map_id _)
    exact figureValue_digitChar d (digits_lt_ten n d hd)
  rw [valueOfFigures, hfigures, valueOfDigits_digits]

theorem valueOfFigures_padZeros (width : ℕ) (text : Text) :
    valueOfFigures (padZeros width text) = valueOfFigures text := by
  rw [valueOfFigures, figureValues, padZeros, List.map_append, List.map_replicate]
  exact valueOfDigits_replicate_zero_append 10 _ _

theorem valueOfFigures_append_zeros (text : Text) (zeros : ℕ) :
    valueOfFigures (text ++ List.replicate zeros '0') = valueOfFigures text * 10 ^ zeros := by
  induction zeros with
  | zero => simp
  | succ zeros ih =>
    have hlast : figureValues (text ++ List.replicate zeros '0' ++ ['0']) =
        figureValues (text ++ List.replicate zeros '0') ++ [0] := List.map_append ..
    rw [List.replicate_succ', ← List.append_assoc, valueOfFigures, hlast,
      valueOfDigits_append_singleton, pow_succ, ← Nat.mul_assoc, ← ih]
    rfl

namespace Decimal

/-- A fraction is what is left of it and zeros. -/
theorem exists_dropTrailingZeros (text : Text) :
    ∃ zeros, text = dropTrailingZeros text ++ List.replicate zeros '0' := by
  refine ⟨(text.reverse.takeWhile (· == '0')).length, ?_⟩
  have hzeros : text.reverse.takeWhile (· == '0') =
      List.replicate (text.reverse.takeWhile (· == '0')).length '0' :=
    List.eq_replicate_of_mem fun c hc => by simpa using List.mem_takeWhile_imp hc
  rw [dropTrailingZeros, ← List.reverse_inj, List.reverse_append, List.reverse_reverse,
    List.reverse_replicate, ← hzeros, List.takeWhile_append_dropWhile]

theorem splitPlaces_eq (places : ℕ) (n : ℕ) :
    ∃ whole fraction, splitPlaces places (numeral 10 n) = (whole, fraction) ∧ whole ≠ [] ∧
      fraction.length = places ∧ (∀ c ∈ whole ++ fraction, c.isDigit = true) ∧
      valueOfFigures (whole ++ fraction) = n := by
  let padded := padZeros (places + 1) (numeral 10 n)
  have hlen : places < padded.length := by
    rw [show padded.length = _ from List.length_append, List.length_replicate]
    omega
  refine ⟨padded.take (padded.length - places), padded.drop (padded.length - places), ?_, ?_, ?_,
    ?_, ?_⟩
  · rw [splitPlaces, List.splitAt_eq]
  · rw [← List.length_pos_iff, List.length_take]
    omega
  · rw [List.length_drop]
    omega
  · intro c hc
    rw [List.take_append_drop] at hc
    rcases List.mem_append.1 hc with hc | hc
    · rw [List.eq_of_mem_replicate hc]
      rfl
    · exact isDigit_of_mem_numeral hc
  · rw [List.take_append_drop, valueOfFigures_padZeros, valueOfFigures_numeral]

theorem joinPoint_nil (whole : Text) : joinPoint whole [] = whole := rfl

theorem joinPoint_cons (whole : Text) (c : Char) (cs : Text) :
    joinPoint whole (c :: cs) = whole ++ '.' :: c :: cs := rfl

/-- A text that is a whole part and perhaps a fraction, both of figures, and stands for a double. -/
def Spells (text : Text) (x : Double) : Prop :=
  ∃ whole fraction, text = joinPoint whole fraction ∧ whole ≠ [] ∧
    (∀ c ∈ whole ++ fraction, c.isDigit = true) ∧
    Double.ofDecimal false (valueOfFigures (whole ++ fraction)) (-fraction.length) = x

theorem spells_whole (d : Decimal) (h : d.toDouble.isFinite = true) (hexponent : 0 ≤ d.exponent) :
    Spells (numeral 10 (d.coefficient * 10 ^ d.exponent.toNat)) d.toDouble := by
  refine ⟨numeral 10 (d.coefficient * 10 ^ d.exponent.toNat), [], rfl, numeral_ne_nil _, ?_, ?_⟩
  · intro c hc
    rw [List.append_nil] at hc
    exact isDigit_of_mem_numeral hc
  · rw [List.append_nil, valueOfFigures_numeral, List.length_nil, Nat.cast_zero, neg_zero]
    by_cases hlt : d.exponent < Double.decimalOverflow
    · exact Double.ofDecimal_mul_ten_pow_zero false d.coefficient hexponent hlt
    · have hzero : d.coefficient = 0 := by
        by_contra hne
        rw [toDouble, Double.ofDecimal, if_neg hne, if_pos (not_lt.1 hlt)] at h
        cases h
      rw [toDouble, hzero, Nat.zero_mul, Double.ofDecimal_zero, Double.ofDecimal_zero]

theorem spells_fraction (d : Decimal) (hexponent : ¬0 ≤ d.exponent) :
    Spells d.positional d.toDouble := by
  obtain ⟨places, hplaces⟩ : ∃ places : ℕ, d.exponent = -places :=
    ⟨(-d.exponent).toNat, by omega⟩
  obtain ⟨whole, fraction, hsplit, hne, hlen, hdigits, hvalue⟩ :=
    splitPlaces_eq places d.coefficient
  obtain ⟨zeros, hzeros⟩ := exists_dropTrailingZeros fraction
  refine ⟨whole, dropTrailingZeros fraction, ?_, hne, ?_, ?_⟩
  · rw [positional, if_neg hexponent, hplaces, neg_neg, Int.toNat_natCast, hsplit]
  · intro c hc
    refine hdigits c ?_
    rw [hzeros, ← List.append_assoc]
    exact List.mem_append_left _ hc
  · have hplus : places = (dropTrailingZeros fraction).length + zeros := by
      rw [← hlen]
      conv_lhs => rw [hzeros, List.length_append, List.length_replicate]
    rw [hzeros, ← List.append_assoc, valueOfFigures_append_zeros] at hvalue
    rw [toDouble, hplaces, ← hvalue, hplus, Double.ofDecimal_mul_ten_pow]

/-- A decimal written positionally stands for its double. -/
theorem spells_positional {d : Decimal} (h : d.toDouble.isFinite = true) :
    Spells d.positional d.toDouble := by
  by_cases hexponent : 0 ≤ d.exponent
  · rw [positional, if_pos hexponent]
    exact spells_whole d h hexponent
  · exact spells_fraction d hexponent

end Decimal

theorem Decimal.spells_zero : Spells ['0'] (.zero false) := by
  have hvalue : valueOfFigures (['0'] ++ []) = 0 := by decide
  refine ⟨['0'], [], rfl, List.cons_ne_nil _ _, ?_, ?_⟩
  · intro c hc
    rw [List.mem_singleton.1 hc]
    rfl
  · rw [hvalue, Double.ofDecimal_zero]

/-- The text of a finite double that is not negative stands for it. -/
theorem Double.spells_toText (rank : Fin rankCount) :
    Decimal.Spells (finite false rank).toText (finite false rank) := by
  rw [toText, signText, if_neg Bool.false_ne_true]
  split
  · next hzero =>
    obtain rfl : rank = ⟨0, by decide⟩ := Fin.ext hzero
    exact Decimal.spells_zero
  · have hdouble := Decimal.toDouble_shortest rank
    rw [← hdouble]
    exact Decimal.spells_positional (by rw [hdouble]; rfl)

end RadixCalc
