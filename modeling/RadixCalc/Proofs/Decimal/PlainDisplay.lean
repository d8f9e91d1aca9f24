import RadixCalc.Proofs.Answer.RoundTrip
import RadixCalc.Proofs.Decimal.Placed
import RadixCalc.Document

/-!
# Plain displays in prose

A display that stands in prose is told apart from the names in braces around it because it has
characters, and none of them is a brace.

* `Double.isDisplay_simpleText` says this of the plain display of every number.
-/

namespace RadixCalc

open Passage (isPlain)

theorem isPlain_of_isDigit {c : Char} (h : c.isDigit = true) : isPlain c = true := by
  rw [isPlain, Bool.and_eq_true, bne_iff_ne, bne_iff_ne]
  constructor
  · rintro rfl
    cases h
  · rintro rfl
    cases h

theorem isPlain_of_mem_numeral {n : ℕ} {c : Char} (hc : c ∈ numeral 10 n) : isPlain c = true :=
  isPlain_of_isDigit (isDigit_of_mem_numeral hc)

theorem Decimal.mem_of_mem_dropTrailingZeros {text : Text} {c : Char}
    (hc : c ∈ dropTrailingZeros text) : c ∈ text := by
  obtain ⟨zeros, hzeros⟩ := exists_dropTrailingZeros text
  rw [hzeros]
  exact List.mem_append_left _ hc

/-- A display that can be told apart from a name in braces: it has characters, and none of them is
a brace. -/
structure Text.IsDisplay (text : Text) : Prop where
  ne_nil : text ≠ []
  plain : ∀ c ∈ text, isPlain c = true

theorem Text.IsDisplay.signText {text : Text} (h : text.IsDisplay) (negative : Bool) :
    (Double.signText negative text).IsDisplay := by
  cases negative with
  | false => exact h
  | true => exact ⟨List.cons_ne_nil _ _, List.forall_mem_cons.2 ⟨rfl, h.plain⟩⟩

/-- Figures and a point are characters, and no braces. -/
theorem Decimal.isDisplay_positional (d : Decimal) : d.positional.IsDisplay := by
  rw [positional]
  split
  · exact ⟨numeral_ne_nil _, fun c hc => isPlain_of_mem_numeral hc⟩
  · obtain ⟨whole, fraction, hsplit, hne, -, hdigits, -⟩ :=
      splitPlaces_eq (-d.exponent).toNat d.coefficient
    have hwhole : ∀ c ∈ whole, isPlain c = true := fun c hc =>
      isPlain_of_isDigit (hdigits c (List.mem_append_left _ hc))
    have hfraction : ∀ c ∈ dropTrailingZeros fraction, isPlain c = true := fun c hc =>
      isPlain_of_isDigit (hdigits c (List.mem_append_right _ (mem_of_mem_dropTrailingZeros hc)))
    rw [hsplit]
    simp only [joinPoint]
    split
    · exact ⟨hne, hwhole⟩
    · exact ⟨by simp, List.forall_mem_append.2 ⟨hwhole, List.forall_mem_cons.2 ⟨rfl, hfraction⟩⟩⟩

/-- Neither the figures around the point nor the exponent have a brace. -/
theorem Double.isDisplay_simpleExponentText (d : Decimal) :
    (simpleExponentText d).IsDisplay := by
  have hfigures : ∀ c ∈ Decimal.dropTrailingZeros (numeral 10 d.coefficient),
      isPlain c = true := fun c hc =>
    isPlain_of_mem_numeral (Decimal.mem_of_mem_dropTrailingZeros hc)
  refine ⟨by simp [simpleExponentText, exponentText], ?_⟩
  simp only [simpleExponentText, exponentText, List.append_assoc, List.cons_append,
    List.forall_mem_append, List.forall_mem_cons]
  refine ⟨fun c hc => hfigures c (List.mem_of_mem_take hc), rfl, ?_, rfl, ?_,
    fun c hc => isPlain_of_mem_numeral hc⟩
  · split
    · exact List.forall_mem_singleton.2 rfl
    · exact fun c hc => hfigures c (List.mem_of_mem_drop hc)
  · split <;> rfl

/-- The plain display of a number has no braces. -/
theorem Double.isDisplay_simpleText (x : Double) : x.simpleText.IsDisplay := by
  cases x with
  | nan => exact ⟨List.cons_ne_nil _ _, by simp [simpleText, nanText, isPlain]⟩
  | infinity negative =>
    cases negative <;>
      exact ⟨List.cons_ne_nil _ _, by simp [simpleText, infinityText, isPlain]⟩
  | finite negative rank =>
    by_cases hzero : rank.val = 0
    · rw [simpleText, if_pos hzero]
      exact ⟨List.cons_ne_nil _ _, List.forall_mem_singleton.2 rfl⟩
    · rw [simpleText_finite negative hzero, plainText]
      refine Text.IsDisplay.signText ?_ negative
      split
      · exact Decimal.isDisplay_positional _
      · exact isDisplay_simpleExponentText _

/-- A reader who has a point before fractions sees the neutral text. -/
theorem Locale.simpleText_of_point {l : Locale} (hpoint : l.point = '.') (x : Double) :
    l.simpleText x = x.simpleText := by
  rw [simpleText, localize_eq, hpoint]
  exact putMarks_neutral _

theorem Locale.simpleText_standard (x : Double) : Locale.standard.simpleText x = x.simpleText :=
  simpleText_of_point rfl x

end RadixCalc
