import RadixCalc.Proofs.Decimal.ReadingBack
import RadixCalc.Proofs.Decimal.ReadsOff
import RadixCalc.Proofs.Decimal.Rounded
import RadixCalc.Proofs.Double.Closest

/-!
# Figures in their places

The plain display takes the text with every digit apart, drops the zeros at its end and puts what is
left in its places, with a count of zeros for each of three cases. This file shows that nothing is
lost on the way, and that the figures in their places are the decimal written positionally, which
knows no cases.

* `Double.integerOfText?_integerText` and `Double.splitExponent_append` take the text apart.
* `Double.placedText_eq_positional` puts the figures in their places, for every decimal but zero.
* `Double.simpleText_finite` is the plain display in terms of the rounded decimal
  (`Double.plainText`).
-/

namespace RadixCalc

/-! ## Figures of a number -/

/-- The numeral of a number that is not zero does not begin with 0. -/
theorem exists_numeral_cons {n : ℕ} (hn : n ≠ 0) :
    ∃ first rest, numeral 10 n = first :: rest ∧ first ≠ '0' := by
  have hreverse : digits 10 n = (Nat.digits 10 n).reverse := by
    rw [digits, lowDigits_eq_digits (by decide) hn]
  have hne : Nat.digits 10 n ≠ [] := Nat.digits_ne_nil_iff_ne_zero.2 hn
  obtain ⟨low, d, hsplit⟩ := List.eq_nil_or_concat' (Nat.digits 10 n) |>.resolve_left hne
  have hfirst : d ≠ 0 := by
    have hlast := Nat.getLast_digit_ne_zero 10 hn
    simpa [hsplit] using hlast
  have hlt : d < 10 := Nat.digits_lt_base (by decide) (by rw [hsplit]; simp)
  refine ⟨digitChar d, low.reverse.map digitChar, ?_, ?_⟩
  · rw [numeral, hreverse, hsplit, List.reverse_append]
    rfl
  · intro hzero
    have hvalue := figureValue_digitChar d hlt
    rw [hzero] at hvalue
    exact hfirst hvalue.symm

/-- A power of ten stands as zeros behind a numeral. -/
theorem numeral_mul_ten_pow {n : ℕ} (hn : n ≠ 0) (zeros : ℕ) :
    numeral 10 (n * 10 ^ zeros) = numeral 10 n ++ List.replicate zeros '0' := by
  have hproduct : n * 10 ^ zeros ≠ 0 := Nat.mul_ne_zero hn (Nat.pow_pos (by decide)).ne'
  rw [numeral, numeral, digits, digits, lowDigits_eq_digits (by decide) hproduct,
    lowDigits_eq_digits (by decide) hn, Nat.mul_comm,
    Nat.digits_base_pow_mul (by decide) (Nat.pos_of_ne_zero hn), List.reverse_append,
    List.reverse_replicate, List.map_append, List.map_replicate]
  rfl

namespace Decimal

theorem getLast?_dropTrailingZeros (text : Text) :
    (dropTrailingZeros text).getLast? ≠ some '0' := by
  intro hlast
  rw [dropTrailingZeros, List.getLast?_reverse] at hlast
  have hhead := List.head?_dropWhile_not (· == '0') text.reverse
  rw [hlast] at hhead
  cases hhead

/-- The zeros behind a text that does not end in one are what is dropped. -/
theorem dropTrailingZeros_append {text : Text} (h : text.getLast? ≠ some '0') (zeros : ℕ) :
    dropTrailingZeros (text ++ List.replicate zeros '0') = text := by
  have hzeros : ∀ c ∈ List.replicate zeros '0', (c == '0') = true := by
    intro c hc
    rw [List.eq_of_mem_replicate hc]
    rfl
  have htext : text.reverse.dropWhile (· == '0') = text.reverse := by
    cases hreverse : text.reverse with
    | nil => rfl
    | cons c cs =>
      refine List.dropWhile_cons_of_neg ?_
      rintro hc
      rw [← List.head?_reverse, hreverse, List.head?_cons, beq_iff_eq.1 hc] at h
      exact h rfl
  rw [dropTrailingZeros, List.reverse_append, List.reverse_replicate,
    List.dropWhile_append_of_pos hzeros, htext, List.reverse_reverse]

/-- What is written of the figures of a number that is not zero begins with the first of them, which
is not 0, and ends before the zeros at the end. -/
theorem exists_figures {n : ℕ} (hn : n ≠ 0) :
    ∃ first rest zeros, dropTrailingZeros (numeral 10 n) = first :: rest ∧ first ≠ '0' ∧
      rest.getLast? ≠ some '0' ∧ numeral 10 n = first :: (rest ++ List.replicate zeros '0') := by
  obtain ⟨first, behind, hnumeral, hfirst⟩ := exists_numeral_cons hn
  obtain ⟨zeros, hzeros⟩ := exists_dropTrailingZeros (numeral 10 n)
  have hlast := getLast?_dropTrailingZeros (numeral 10 n)
  cases hfigures : dropTrailingZeros (numeral 10 n) with
  | nil =>
    rw [hfigures, hnumeral, List.nil_append] at hzeros
    have hmem : first ∈ List.replicate zeros '0' := by
      rw [← hzeros]
      exact List.mem_cons_self
    exact absurd (List.eq_of_mem_replicate hmem) hfirst
  | cons c rest =>
    rw [hfigures] at hzeros hlast
    obtain ⟨rfl, -⟩ := List.cons.inj (hnumeral.symm.trans hzeros)
    refine ⟨first, rest, zeros, rfl, hfirst, ?_, hzeros⟩
    cases rest with
    | nil => simp
    | cons d rest => rwa [List.getLast?_cons_cons] at hlast

theorem leadingExponent_eq (d : Decimal) :
    d.leadingExponent = d.exponent + (numeral 10 d.coefficient).length - 1 := by
  rw [leadingExponent, numeral, List.length_map]

/-! ## The split at the point -/

/-- A numeral without a figure before its point gets a zero there. -/
theorem splitPlaces_of_le {places : ℕ} {text : Text} (h : text.length ≤ places) :
    splitPlaces places text = (['0'], List.replicate (places - text.length) '0' ++ text) := by
  have hzeros : places + 1 - text.length = (places - text.length) + 1 := by omega
  have hlength : (padZeros (places + 1) text).length - places = 1 := by
    rw [padZeros, List.length_append, List.length_replicate]
    omega
  rw [splitPlaces]
  simp only [hlength, List.splitAt_eq]
  rw [padZeros, hzeros, List.replicate_succ]
  rfl

/-- A longer numeral is cut. -/
theorem splitPlaces_of_lt {places : ℕ} {text : Text} (h : places < text.length) :
    splitPlaces places text =
      (text.take (text.length - places), text.drop (text.length - places)) := by
  have hnone : padZeros (places + 1) text = text := by
    rw [padZeros, Nat.sub_eq_zero_of_le h]
    rfl
  rw [splitPlaces]
  simp only [hnone, List.splitAt_eq]

end Decimal

/-! ## The three cases -/

namespace Double

open Decimal (dropTrailingZeros dropTrailingZeros_append joinPoint splitPlaces splitPlaces_of_le
  splitPlaces_of_lt)

/-- A whole number is its figures and all the zeros behind them. -/
theorem placedText_of_whole {figures : Text} (hne : figures ≠ []) (zeros more : ℕ) :
    placedText figures (more + (figures.length + zeros : ℕ) - 1) =
      figures ++ List.replicate (zeros + more) '0' := by
  have hpos : 0 < figures.length := List.length_pos_iff.2 hne
  have hplaces : ((more : ℤ) + (figures.length + zeros : ℕ) - 1).toNat + 1 =
      figures.length + (zeros + more) := by omega
  rw [placedText, if_neg (by omega), hplaces, if_pos (by omega), Nat.add_sub_cancel_left]

section Figures

variable {figures : Text} (hlast : figures.getLast? ≠ some '0') (zeros : ℕ)

include hlast

/-- Below one the figures stand behind the zeros that the split has put before them. -/
theorem joinPoint_of_le (hne : figures ≠ []) {places : ℕ}
    (h : (figures ++ List.replicate zeros '0').length ≤ places) :
    joinPoint (splitPlaces places (figures ++ List.replicate zeros '0')).1
        (dropTrailingZeros (splitPlaces places (figures ++ List.replicate zeros '0')).2) =
      '0' :: '.' :: (List.replicate (places - (figures ++ List.replicate zeros '0').length) '0' ++
        figures) := by
  have hend : ∀ front : Text, (front ++ figures).getLast? ≠ some '0' := by
    intro front
    rwa [List.getLast?_append_of_ne_nil _ hne]
  rw [splitPlaces_of_le h, ← List.append_assoc, dropTrailingZeros_append (hend _), joinPoint,
    if_neg (by simp [hne])]
  rfl

/-- From one on the split goes through the figures, or through the zeros behind them. -/
theorem joinPoint_of_lt {places before : ℕ}
    (h : (figures ++ List.replicate zeros '0').length = before + places) (hbefore : before ≠ 0) :
    joinPoint (splitPlaces places (figures ++ List.replicate zeros '0')).1
        (dropTrailingZeros (splitPlaces places (figures ++ List.replicate zeros '0')).2) =
      if figures.length ≤ before then
        figures ++ List.replicate (before - figures.length) '0'
      else figures.take before ++ '.' :: figures.drop before := by
  have hcut : (figures ++ List.replicate zeros '0').length - places = before := by omega
  rw [splitPlaces_of_lt (by omega), hcut]
  rw [List.length_append, List.length_replicate] at h
  split
  · next hle =>
    -- nothing but zeros is behind the point
    have hrest : dropTrailingZeros
        ((figures ++ List.replicate zeros '0').drop before) = [] := by
      have hdrop : (figures ++ List.replicate zeros '0').drop before =
          [] ++ List.replicate (zeros - (before - figures.length)) '0' := by
        rw [List.drop_append, List.drop_eq_nil_of_le hle, List.drop_replicate]
      rw [hdrop, dropTrailingZeros_append (by simp)]
    rw [hrest, joinPoint, if_pos List.isEmpty_nil, List.take_append, List.take_of_length_le hle,
      List.take_replicate, min_eq_left (by omega)]
  · next hlt =>
    have hlt : before < figures.length := not_le.1 hlt
    have hend : (figures.drop before).getLast? ≠ some '0' := by
      rwa [List.getLast?_drop, if_neg (by omega)]
    have hdrop : figures.drop before ≠ [] := by
      rw [← List.length_pos_iff, List.length_drop]
      omega
    rw [List.drop_append_of_le_length hlt.le, dropTrailingZeros_append hend,
      List.take_append_of_le_length hlt.le, joinPoint, if_neg (by simpa using hlt)]

/-- A fraction is its numeral, split at the point, without the zeros behind the figures. -/
theorem placedText_of_fraction (hne : figures ≠ []) (places : ℕ) :
    placedText figures (-places + (figures.length + zeros : ℕ) - 1) =
      joinPoint (splitPlaces places (figures ++ List.replicate zeros '0')).1
        (dropTrailingZeros (splitPlaces places (figures ++ List.replicate zeros '0')).2) := by
  have hpos : 0 < figures.length := List.length_pos_iff.2 hne
  have htotal : (figures ++ List.replicate zeros '0').length = figures.length + zeros := by
    rw [List.length_append, List.length_replicate]
  rw [placedText]
  by_cases hbelow : figures.length + zeros ≤ places
  · have hzeros : (-(-(places : ℤ) + (figures.length + zeros : ℕ) - 1) - 1).toNat =
        places - (figures ++ List.replicate zeros '0').length := by omega
    rw [if_pos (by omega), hzeros, joinPoint_of_le hlast zeros hne (htotal ▸ hbelow)]
  · have hbefore : (-(places : ℤ) + (figures.length + zeros : ℕ) - 1).toNat + 1 =
        figures.length + zeros - places := by omega
    rw [if_neg (by omega), hbefore]
    exact (joinPoint_of_lt hlast zeros (by omega) (by omega)).symm

end Figures

/-- The figures of a decimal without the zeros that end them, in their places, are the decimal
written positionally. -/
theorem placedText_eq_positional {d : Decimal} (hd : d.coefficient ≠ 0) :
    placedText (dropTrailingZeros (numeral 10 d.coefficient)) d.leadingExponent =
      d.positional := by
  obtain ⟨first, rest, zeros, hfigures, -, -, hnumeral⟩ := Decimal.exists_figures hd
  have hlast : (first :: rest).getLast? ≠ some '0' := by
    rw [← hfigures]
    exact Decimal.getLast?_dropTrailingZeros _
  rw [← List.cons_append] at hnumeral
  rw [hfigures, Decimal.leadingExponent_eq, hnumeral, List.length_append, List.length_replicate,
    Decimal.positional]
  have hne : first :: rest ≠ [] := List.cons_ne_nil _ _
  generalize first :: rest = figures at *
  by_cases hexponent : 0 ≤ d.exponent
  · obtain ⟨more, hmore⟩ := Int.eq_ofNat_of_zero_le hexponent
    rw [if_pos hexponent, hmore, placedText_of_whole hne, Int.toNat_natCast,
      numeral_mul_ten_pow hd, hnumeral, List.append_assoc, List.replicate_append_replicate]
  · obtain ⟨places, hplaces⟩ := Int.exists_eq_neg_ofNat (not_le.1 hexponent).le
    rw [if_neg hexponent, hplaces, neg_neg, Int.toNat_natCast, hnumeral]
    exact placedText_of_fraction hlast zeros hne places

/-! ## Taking the text apart -/

/-- A figure follows the sign, so a sign is found where there is one. -/
theorem readSign_signText (negative : Bool) {c : Char} (hc : c.isDigit = true) (cs : Text) :
    Numeral.readSign (signText negative (c :: cs)) = (negative, c :: cs) := by
  cases negative with
  | true => rfl
  | false =>
    refine Numeral.readSign_of_ne ?_ ?_ <;>
    · rintro ⟨⟩
      cases hc

/-- The text of a 32-bit word is read as the word. -/
theorem integerOfText?_integerText {i : ℤ} (hlow : -2 ^ 31 ≤ i) (hhigh : i < 2 ^ 31) :
    integerOfText? (integerText i) = some i := by
  obtain ⟨c, cs, hnumeral⟩ := List.exists_cons_of_ne_nil (numeral_ne_nil i.natAbs)
  have hdigits : ∀ d ∈ c :: cs, d.isDigit = true := by
    intro d hd
    rw [← hnumeral] at hd
    exact isDigit_of_mem_numeral hd
  have hfigures : Numeral.readFigures (c :: cs ++ []) = (c :: cs, []) :=
    Numeral.readFigures_append hdigits nofun
  have hmagnitude : valueOfFigures (c :: cs) = i.natAbs := by
    rw [← hnumeral, valueOfFigures_numeral]
  have hvalue : (if decide (i < 0) = true then -((i.natAbs : ℕ) : ℤ) else (i.natAbs : ℕ)) = i := by
    by_cases hneg : i < 0
    · rw [if_pos (decide_eq_true hneg)]
      omega
    · rw [if_neg (by simpa using hneg)]
      omega
  have hbounds : Int32.minValue.toInt ≤ i ∧ i ≤ Int32.maxValue.toInt :=
    ⟨hlow, Int.le_of_lt_add_one hhigh⟩
  rw [List.append_nil] at hfigures
  simp only [integerOfText?, integerText, hnumeral,
    readSign_signText _ (hdigits c List.mem_cons_self), hfigures, hmagnitude, hvalue]
  exact if_pos hbounds

section Mantissa

variable {figures : Text} (h : ∀ c ∈ figures, c.isDigit = true)

include h

/-- The figures around a point are the only figures there. -/
theorem filter_joinPoint :
    (joinPoint (figures.take 1) (figures.drop 1)).filter Char.isDigit = figures := by
  have hself : figures.filter Char.isDigit = figures := List.filter_eq_self.2 h
  rw [joinPoint]
  split
  · next hnil =>
    rw [List.isEmpty_iff, List.drop_eq_nil_iff] at hnil
    rw [List.take_of_length_le hnil, hself]
  · rw [List.filter_append, List.filter_cons_of_neg (by decide), ← List.filter_append,
      List.take_append_drop, hself]

theorem ne_of_mem_joinPoint {c : Char}
    (hc : c ∈ joinPoint (figures.take 1) (figures.drop 1)) : c ≠ 'e' := by
  rintro rfl
  have hmem : 'e' ∈ figures := by
    rw [joinPoint] at hc
    split at hc
    · exact List.mem_of_mem_take hc
    · rcases List.mem_append.1 hc with hc | hc
      · exact List.mem_of_mem_take hc
      · exact List.mem_of_mem_drop ((List.mem_cons.1 hc).resolve_left (by decide))
  cases h 'e' hmem

end Mantissa

/-- A text is split at its first `e`. -/
theorem splitExponent_append {mantissa : Text} (h : ∀ c ∈ mantissa, c ≠ 'e') (exponent : Text) :
    splitExponent (mantissa ++ 'e' :: exponent) = (mantissa, exponent) := by
  have hne : ∀ c ∈ mantissa, (c != 'e') = true := fun c hc => bne_iff_ne.2 (h c hc)
  rw [splitExponent, List.dropWhile_append_of_pos hne, List.takeWhile_append_of_pos hne]
  simp

/-! ## The plain display -/

/-- A decimal with an exponent, in the figures that are shown of it. -/
def simpleExponentText (d : Decimal) : Text :=
  exponentText (dropTrailingZeros (numeral 10 d.coefficient)) d.leadingExponent

/-- The plain display of a magnitude that has been rounded. -/
def plainText (d : Decimal) : Text :=
  if simpleLowest ≤ d.leadingExponent ∧ d.leadingExponent < simpleDigits then d.positional
  else simpleExponentText d

/-- The figures of a decimal without the zeros that end them are its plain display. -/
theorem figuresText_eq_plainText {d : Decimal} (hd : d.coefficient ≠ 0) :
    figuresText (dropTrailingZeros (numeral 10 d.coefficient)) d.leadingExponent =
      plainText d := by
  rw [figuresText, placedText_eq_positional hd, plainText, simpleExponentText]
  by_cases h : simpleLowest ≤ d.leadingExponent ∧ d.leadingExponent < simpleDigits
  · rw [if_neg (by omega), if_pos h]
  · rw [if_pos (by omega), if_neg h]

/-- The first digit of a magnitude that has been rounded counts the power of ten that it counted
before, or after a carry the next one. -/
theorem leadingExponent_significant {units count : ℕ} (hunits : units ≠ 0) (hcount : 0 < count) :
    Int.log 10 ((units : ℚ) / unitsPerOne) ≤ (Decimal.significant count units).leadingExponent ∧
    (Decimal.significant count units).leadingExponent ≤
      Int.log 10 ((units : ℚ) / unitsPerOne) + 1 := by
  obtain ⟨n, -, heq⟩ := Decimal.exists_significant hunits count
  have hdigits := Decimal.hasDigits_significant hunits hcount
  have hexponent : (Decimal.significant count units).exponent =
        Decimal.lastPlace count ((units : ℚ) / unitsPerOne) + 1 ∨
      (Decimal.significant count units).exponent =
        Decimal.lastPlace count ((units : ℚ) / unitsPerOne) := by
    rw [heq]
    split
    · exact .inl rfl
    · exact .inr rfl
  rw [Decimal.leadingExponent_eq_log hdigits.coefficient_ne_zero, hdigits.log_toRat]
  rw [Decimal.lastPlace] at hexponent
  omega

/-- So the exponent that is shown of a double is far within a 32-bit word. -/
theorem leadingExponent_significant_bounds {rank : Fin rankCount} (h : rank.val ≠ 0) {count : ℕ}
    (hcount : 0 < count) :
    -2 ^ 31 ≤ (Decimal.significant count (unitsOfRank rank)).leadingExponent ∧
    (Decimal.significant count (unitsOfRank rank)).leadingExponent < 2 ^ 31 := by
  have hunits := unitsOfRank_ne_zero h
  obtain ⟨hlow, hhigh⟩ := leadingExponent_significant hunits hcount
  have hleast : -324 ≤ Int.log 10 ((unitsOfRank rank : ℚ) / unitsPerOne) := by
    have hraising : Decimal.raisingPlaces = 324 := rfl
    have hpos := length_digits_pos (by decide : 2 ≤ 10)
      (unitsOfRank rank * 10 ^ Decimal.raisingPlaces / unitsPerOne)
    rw [← Decimal.magnitudeExponent_eq_log hunits, Decimal.magnitudeExponent]
    generalize (digits 10 (unitsOfRank rank * 10 ^ Decimal.raisingPlaces / unitsPerOne)).length =
      count at *
    omega
  have hgreatest : Int.log 10 ((unitsOfRank rank : ℚ) / unitsPerOne) < 309 :=
    log_lt_of_lt (div_unitsPerOne_pos hunits)
      ((div_unitsPerOne_le_greatest rank).trans_lt greatest_lt)
  omega

/-- The text with every digit of a magnitude that is not zero. -/
theorem scientificText_finite (count : ℕ) {rank : Fin rankCount} (h : rank.val ≠ 0) :
    scientificText count (finite false rank) =
      joinPoint ((numeral 10 (Decimal.significant count (unitsOfRank rank)).coefficient).take 1)
          ((numeral 10 (Decimal.significant count (unitsOfRank rank)).coefficient).drop 1) ++
        'e' :: integerText (Decimal.significant count (unitsOfRank rank)).leadingExponent := by
  rw [scientificText, if_neg h]
  rfl

/-- The plain display of a number that is not zero is that of its magnitude, rounded, under its
sign: the text that is taken apart has the figures and the exponent of the rounded magnitude. -/
theorem simpleText_finite (negative : Bool) {rank : Fin rankCount} (h : rank.val ≠ 0) :
    simpleText (finite negative rank) =
      signText negative (plainText (Decimal.significant simpleDigits (unitsOfRank rank))) := by
  have hcount : 0 < simpleDigits := by decide
  have hdigits := Decimal.hasDigits_significant (unitsOfRank_ne_zero h) hcount
  obtain ⟨hlow, hhigh⟩ := leadingExponent_significant_bounds h hcount
  rw [← figuresText_eq_plainText hdigits.coefficient_ne_zero, simpleText, if_neg h,
    scientificText_finite simpleDigits h]
  generalize Decimal.significant simpleDigits (unitsOfRank rank) = d at *
  have hfigures : ∀ c ∈ numeral 10 d.coefficient, c.isDigit = true :=
    fun c hc => isDigit_of_mem_numeral hc
  rw [splitExponent_append fun c hc => ne_of_mem_joinPoint hfigures hc]
  dsimp only
  rw [filter_joinPoint hfigures, integerOfText?_integerText hlow hhigh, Option.getD_some]

end Double

end RadixCalc
