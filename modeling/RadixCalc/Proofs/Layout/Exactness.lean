import RadixCalc.Proofs.Double.Value
import RadixCalc.Proofs.Layout.Digits

/-!
# What a layout shows is exact

A number in a layout is correct for its exact value, whatever its size: the digits stand for the
value in units of the last digit, rounded once with a half going away from zero, and cut to the
field where the field is fixed. This file says so without the program's own arithmetic, in terms of
the value as a fraction (`Layout.rounded`, `Layout.shownMagnitude`) and of the digits of Mathlib.

* `Layout.Shows` is the specification of a text.
* `Layout.display_exact` says that a layout that can be met shows every finite number so, and how
  any other layout fails.
-/

namespace RadixCalc.Layout

/-! ## Specification -/

/-- The magnitude of a value in units of the last digit, rounded to the nearest whole number and a
half away from zero. -/
def rounded (l : Layout) (q : ℚ) : ℕ :=
  ⌊|q| * (l.base : ℚ) ^ l.fraction + 1 / 2⌋₊

/-- Numbers are shown in a fixed field: it is asked for and the base has one. -/
def IsMasked (l : Layout) : Prop :=
  l.exactDigits = true ∧ (l.base = 2 ∨ l.base = 8 ∨ l.base = 16)

instance (l : Layout) : Decidable l.IsMasked :=
  inferInstanceAs (Decidable (_ ∧ _))

/-- The magnitude that is shown of a value. -/
def shownMagnitude (l : Layout) (q : ℚ) : ℕ :=
  if l.IsMasked then l.rounded q % l.base ^ (max l.integers 1 + l.fraction) else l.rounded q

/-- A minus is shown: the value is negative, something of it is shown, the field is not fixed. -/
def ShowsMinus (l : Layout) (q : ℚ) : Prop :=
  q < 0 ∧ l.shownMagnitude q ≠ 0 ∧ ¬l.IsMasked

instance (l : Layout) (q : ℚ) : Decidable (l.ShowsMinus q) :=
  inferInstanceAs (Decidable (_ ∧ _))

/-- The text shows the value `q`: a sign, a prefix, the whole digits with their marks, and the
digits of the fraction behind a point; the digits are `ds`. -/
structure Shows (l : Layout) (q : ℚ) (text whole fraction : Text) (ds : List ℕ) : Prop where
  text_eq : text = (if l.ShowsMinus q then ['-'] else []) ++
    ((if l.showRadix then basePrefix l.base else []) ++
      (whole ++ if l.fraction = 0 then [] else '.' :: fraction))
  head?_eq : text.head? = some '-' ↔ l.ShowsMinus q
  length_fraction : fraction.length = l.fraction
  digits_eq : whole.filter (· != '_') ++ fraction = ds.map digitChar
  digits_lt : ∀ d ∈ ds, d < l.base
  value_eq : Nat.ofDigits l.base ds.reverse = l.shownMagnitude q
  length_eq : ds.length =
    max (max l.integers 1 + l.fraction) (Nat.digits l.base (l.shownMagnitude q)).length

theorem shownMagnitude_zero (l : Layout) : l.shownMagnitude 0 = 0 := by
  have hfloor : ⌊(1 / 2 : ℚ)⌋₊ = 0 := Nat.floor_eq_zero.2 (by norm_num)
  rw [shownMagnitude, rounded, abs_zero, zero_mul, zero_add, hfloor, Nat.zero_mod, ite_self]

theorem shownMagnitude_of_not_isMasked {l : Layout} (h : ¬l.IsMasked) (q : ℚ) :
    l.shownMagnitude q = l.rounded q :=
  if_neg h

/-- Without a fixed field a number shows its sign unless nothing of it is shown. -/
theorem showsMinus_iff_neg {l : Layout} (h : ¬l.IsMasked) {q : ℚ} (hne : l.rounded q ≠ 0) :
    l.ShowsMinus q ↔ q < 0 := by
  rw [ShowsMinus, shownMagnitude_of_not_isMasked h]
  exact ⟨And.left, fun hneg => ⟨hneg, hne, h⟩⟩

/-! ## The program meets it -/

section Radix

variable {l : Layout} {r : Radix} (hr : r.value = l.base)

include hr

theorem masked_iff : (l.exactDigits && r.bitsPerDigit?.isSome) = true ↔ l.IsMasked := by
  rw [Bool.and_eq_true, Radix.bitsPerDigit?_isSome_iff, hr]
  rfl

/-- The rounding of the program is the rounding of the exact value. -/
theorem scaled_eq (negative : Bool) (units : ℕ) :
    Double.scaled r l.fraction units =
      l.rounded ((Double.signed negative units : ℚ) / (Double.unitsPerOne : ℚ)) := by
  rw [Double.scaled, divNearestUp_eq_floor _ Double.unitsPerOne_pos, rounded,
    Double.abs_signed_div, hr]
  congr 2
  push_cast
  ring

/-- The magnitude shown is the rounded value, and its low digits where the field is fixed. -/
theorem magnitude_eq (negative : Bool) (units : ℕ) :
    l.magnitude r units =
      l.shownMagnitude ((Double.signed negative units : ℚ) / (Double.unitsPerOne : ℚ)) := by
  have hmasked := masked_iff hr
  rw [magnitude, scaled_eq hr negative, shownMagnitude]
  cases hexact : l.exactDigits with
  | false =>
    rw [if_neg (mt hmasked.2 (by simp [hexact])), if_neg Bool.false_ne_true]
  | true =>
    cases hbits : r.bitsPerDigit? with
    | none => rw [if_neg (mt hmasked.2 (by simp [hbits])), if_pos rfl]
    | some bits =>
      rw [if_pos (hmasked.1 (by simp [hexact, hbits])), if_pos rfl]
      dsimp only
      rw [keep_eq_mod hbits, hr, digitCount]

theorem showsMinus_iff (negative : Bool) (units : ℕ) :
    l.showsMinus r negative (l.magnitude r units) = true ↔
      l.ShowsMinus ((Double.signed negative units : ℚ) / (Double.unitsPerOne : ℚ)) := by
  have hzero : units = 0 → l.magnitude r units = 0 := by
    rintro rfl
    have hvalue : (Double.signed false 0 : ℚ) / (Double.unitsPerOne : ℚ) = 0 := zero_div _
    rw [magnitude_eq hr false, hvalue, shownMagnitude_zero]
  rw [ShowsMinus, ← magnitude_eq hr, ← masked_iff hr, Double.signed_div_neg_iff, showsMinus]
  simp only [Bool.and_eq_true, bne_iff_ne, Bool.not_eq_true', Bool.eq_false_iff, ne_eq]
  tauto

omit hr in
/-- The marks of the groups are the only marks among the whole digits. -/
theorem filter_groupDigits_wholeDigits (units : ℕ) :
    (groupDigits l.group ((l.wholeDigits r units).map digitChar)).filter (· != '_') =
      (l.wholeDigits r units).map digitChar := by
  apply filter_groupDigits
  intro c hc
  obtain ⟨d, hd, rfl⟩ := List.mem_map.1 hc
  have hlt := l.wholeDigits_lt r units d hd
  exact digitChar_ne (hlt.trans_le r.le_thirtySix) (by decide)

theorem shows_displayFinite (negative : Bool) (units : ℕ) :
    l.Shows ((Double.signed negative units : ℚ) / (Double.unitsPerOne : ℚ))
      (l.displayFinite r negative units)
      (groupDigits l.group ((l.wholeDigits r units).map digitChar))
      ((l.fractionDigits r units).map digitChar) (l.shownDigits r units) := by
  have hminus := showsMinus_iff hr negative units
  have hmagnitude := magnitude_eq hr negative units
  refine ⟨?_, ?_, ?_, ?_, ?_, ?_, ?_⟩
  · rw [displayFinite_eq, Double.signText, unsignedText, prefixText_eq hr, fractionText]
    by_cases h : l.showsMinus r negative (l.magnitude r units) = true
    · rw [if_pos h, if_pos (hminus.1 h)]
      rfl
    · rw [if_neg h, if_neg (mt hminus.2 h)]
      rfl
  · rw [displayFinite_eq, Double.signText, ← hminus]
    obtain ⟨c, rest, hcons, hc⟩ := l.exists_cons_unsigned r units
    have hne : c ≠ '-' := by
      rintro rfl
      exact Bool.noConfusion hc
    split
    · next h => simp [h]
    · next h => simp [h, hcons, hne]
  · rw [List.length_map, length_fractionDigits]
  · rw [filter_groupDigits_wholeDigits, ← List.map_append, wholeDigits_append_fractionDigits]
  · rw [← hr]
    exact l.shownDigits_lt r units
  · rw [← hmagnitude, ← hr, ← valueOfDigits_eq_ofDigits, shownDigits, valueOfDigits_paddedDigits]
  · rw [← hmagnitude, ← hr, length_shownDigits, length_digits r.two_le, digitCount]
    omega

end Radix

/-- Every finite number is shown exactly in a layout that can be met. A base out of range is a
radix fault, and beyond 64 digits before or behind the point a layout fault. -/
theorem display_exact (l : Layout) (x : Double) :
    (¬(2 ≤ l.base ∧ l.base ≤ 36) → l.display x = .error (.badRadix l.base)) ∧
    (2 ≤ l.base ∧ l.base ≤ 36 → 64 < l.integers ∨ 64 < l.fraction →
      l.display x = .error (.badLayout (.width l.integers l.fraction))) ∧
    (2 ≤ l.base ∧ l.base ≤ 36 → l.integers ≤ 64 → l.fraction ≤ 64 → ∀ q, x.toRat? = some q →
      ∃ text whole fraction ds, l.display x = .ok text ∧ l.Shows q text whole fraction ds) := by
  refine ⟨?_, ?_, ?_⟩
  · intro hb
    rw [display, radix_eq_badRadix hb]
  · intro hb hwide
    rw [display, radix_eq_badLayout hb hwide]
  · intro hb hi hf q hq
    have hok := radix_eq_ok hb (by rw [maxDigits]; omega)
    cases x with
    | nan => cases hq
    | infinity negative => cases hq
    | finite negative rank =>
      rw [Double.toRat?_finite] at hq
      cases hq
      exact ⟨_, _, _, _, by rw [display, hok]; rfl, shows_displayFinite rfl negative _⟩

/-- 22.375 with one hexadecimal digit before the point and one behind it. -/
theorem display_exact_hexadecimal :
    (⟨16, 1, 1, 0, false, false⟩ : Layout).display (.ofBits 0x4036600000000000) =
      .ok ['1', '6', '.', '6'] ∧
    ∃ whole fraction ds, (⟨16, 1, 1, 0, false, false⟩ : Layout).Shows (179 / 8)
      ['1', '6', '.', '6'] whole fraction ds := by
  have hdisplay : (⟨16, 1, 1, 0, false, false⟩ : Layout).display (.ofBits 0x4036600000000000) =
      .ok ['1', '6', '.', '6'] := by decide +kernel
  obtain ⟨text, whole, fraction, ds, htext, hshows⟩ :=
    (display_exact ⟨16, 1, 1, 0, false, false⟩ (.ofBits 0x4036600000000000)).2.2
      (by decide) (by decide) (by decide) (179 / 8) (by decide +kernel)
  rw [hdisplay] at htext
  cases htext
  exact ⟨hdisplay, whole, fraction, ds, hshows⟩

end RadixCalc.Layout
