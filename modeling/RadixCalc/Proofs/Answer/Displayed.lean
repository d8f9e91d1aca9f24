import RadixCalc.Proofs.Answer.RoundTrip
import RadixCalc.Proofs.Layout.Exactness

/-!
# Reading back with the standard separators

The text of a finite number in a layout bears the neutral marks, and these are among the marks that
a reader with the standard separators passes over. So such a reader finds the digits of the text
again, and they stand for the magnitude that the layout shows (`exists_read?_display`). What is left
to be said of the value read is arithmetic on these digits.
-/

namespace RadixCalc.AnswerReader

/-- The number was shown as these digits of a base, and this value was read from them. -/
structure ReadFrom (l : Layout) (q : ℚ) (r : Radix) (whole fraction : List ℕ) (value : Double) :
    Prop where
  base_eq : r.value = l.base
  value_eq : value = valueOf r (decide (l.ShowsMinus q)) whole fraction
  digits_lt : ∀ d ∈ whole ++ fraction, d < l.base
  valueOfDigits_eq : valueOfDigits l.base (whole ++ fraction) = l.shownMagnitude q
  length_fraction : fraction.length = l.fraction
  length_eq : (whole ++ fraction).length =
    max l.digitCount (RadixCalc.digits l.base (l.shownMagnitude q)).length

/-- A finite number in a layout that can be met is read back as its digits. -/
theorem exists_read?_display {l : Layout} (hb : 2 ≤ l.base ∧ l.base ≤ 36) (hi : l.integers ≤ 64)
    (hf : l.fraction ≤ 64) {x : Double} {q : ℚ} (hx : x.toRat? = some q) :
    ∃ text reader value r whole fraction, l.display x = .ok text ∧
      AnswerReader.make l.base .standard = .ok reader ∧
      reader.read? text = some ⟨value, []⟩ ∧ ReadFrom l q r whole fraction value := by
  obtain ⟨negative, rank, rfl, rfl⟩ := Double.exists_finite_of_toRat? hx
  let r : Radix := ⟨l.base, hb.1, hb.2⟩
  let units := Double.unitsOfRank rank
  have hok : l.radix = .ok r := Layout.radix_eq_ok hb (by rw [maxDigits]; omega)
  obtain ⟨radix?, hmake, hradix⟩ := Locale.exists_reader .standard hb (.inl rfl)
  have hskips : Skips ⟨radix?, .standard⟩ ['_'] := .inl rfl
  have hread := read?_displayFinite Locale.isPlain_standard hskips hradix negative units
  have hminus := Layout.showsMinus_iff (l := l) (r := r) rfl negative units
  have hmagnitude := Layout.magnitude_eq (l := l) (r := r) rfl negative units
  rw [Bool.eq_iff_iff.2 (hminus.trans decide_eq_true_iff.symm)] at hread
  refine ⟨_, ⟨radix?, .standard⟩, _, r, _, _, ?_, hmake, hread, rfl, rfl, ?_, ?_,
    l.length_fractionDigits r units, ?_⟩
  · rw [Layout.display, hok]
    exact congrArg Except.ok (putMarks_neutral _).symm
  · rw [l.wholeDigits_append_fractionDigits]
    exact l.shownDigits_lt r units
  · rw [l.wholeDigits_append_fractionDigits, ← hmagnitude]
    exact valueOfDigits_paddedDigits _ _ _
  · rw [l.wholeDigits_append_fractionDigits, l.length_shownDigits, hmagnitude]

end RadixCalc.AnswerReader
