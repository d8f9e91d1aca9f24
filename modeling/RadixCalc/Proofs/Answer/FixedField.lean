import RadixCalc.Proofs.Answer.BitRadices
import RadixCalc.Proofs.Answer.Displayed

/-!
# What stands in a fixed field

A number that is shown in a fixed field has lost its sign and its high digits. What is left of it is
computed twice, by the text (the digits, added up again by a reader) and by the mask (the low digits
as one whole number, divided by the power of the base). This file shows that the two agree to the
bit. In a bit radix the magnitude left has few significant bits, because it had few before its high
bits were cut off, so neither side rounds before its one division.

* `Layout.isShort_shownMagnitude` is the reason, and `Layout.exists_mask` the value of the mask.
* `Layout.Shows.length_of_isMasked` and `Layout.Shows.unsigned_of_isMasked` say what the text looks
  like: its digits fill the field, and there is no sign.
* `AnswerReader.read?_display_mask` puts them together.
-/

namespace RadixCalc

open Double (IsShort)

/-! ## The magnitude in the field -/

namespace Layout

section Masked

variable {l : Layout} (hmasked : l.IsMasked)

include hmasked

theorem IsMasked.base_bounds : 2 ≤ l.base ∧ l.base ≤ 36 := by
  have := hmasked.2
  omega

theorem not_showsMinus_of_isMasked (q : ℚ) : ¬l.ShowsMinus q := by
  intro h
  exact h.2.2 hmasked

theorem shownMagnitude_of_isMasked (q : ℚ) :
    l.shownMagnitude q = l.rounded q % l.base ^ l.digitCount :=
  if_pos hmasked

theorem shownMagnitude_lt_of_isMasked (q : ℚ) : l.shownMagnitude q < l.base ^ l.digitCount := by
  have hbase := hmasked.base_bounds
  rw [shownMagnitude_of_isMasked hmasked]
  exact Nat.mod_lt _ (pow_pos (by omega) _)

/-- Rounding to a digit leaves few significant bits, and so does cutting off high digits. -/
theorem isShort_shownMagnitude {x : Double} {q : ℚ} (hx : x.toRat? = some q) :
    IsShort (l.shownMagnitude q) := by
  obtain ⟨k, -, hbase⟩ := AnswerReader.exists_two_pow hmasked.2
  obtain ⟨hlow, hhigh⟩ := hmasked.base_bounds
  obtain ⟨negative, rank, rfl, rfl⟩ := Double.exists_finite_of_toRat? hx
  have hshort := isShort_scaled (r := ⟨l.base, hlow, hhigh⟩) hbase l.fraction rank
  rw [scaled_eq rfl negative] at hshort
  rw [shownMagnitude_of_isMasked hmasked, hbase, ← pow_mul]
  exact hshort.mod_two_pow _

/-- A mask works in the base of the layout, with the bits of one of its digits. -/
theorem exists_maskRadix (hi : l.integers ≤ 64) (hf : l.fraction ≤ 64) :
    ∃ r bits, l.maskRadix = .ok (r, bits) ∧ r.value = l.base ∧ r.bitsPerDigit? = some bits := by
  obtain ⟨hlow, hhigh⟩ := hmasked.base_bounds
  obtain ⟨bits, hbits⟩ := Option.isSome_iff_exists.1
    ((Radix.bitsPerDigit?_isSome_iff ⟨l.base, hlow, hhigh⟩).2 hmasked.2)
  have hwidths : ¬(maxDigits < l.integers ∨ maxDigits < l.fraction) := by
    rw [maxDigits]
    omega
  refine ⟨⟨l.base, hlow, hhigh⟩, bits, ?_, rfl, hbits⟩
  simp only [maskRadix, Radix.ofNat?_eq_some ⟨hlow, hhigh⟩, hbits, checkWidths, if_neg hwidths]

/-- The mask is the magnitude in the field, divided by the power of the base once. -/
theorem exists_mask (hi : l.integers ≤ 64) (hf : l.fraction ≤ 64) {x : Double} {q : ℚ}
    (hx : x.toRat? = some q) :
    ∃ masked, l.mask x = .ok masked ∧
      masked.value = .ofNat (l.shownMagnitude q) / .ofNat (l.base ^ l.fraction) := by
  obtain ⟨negative, rank, rfl, rfl⟩ := Double.exists_finite_of_toRat? hx
  obtain ⟨r, bits, hr, hvalue, hbits⟩ := exists_maskRadix hmasked hi hf
  refine ⟨l.maskIn r bits (.finite negative rank), by rw [mask, hr], ?_⟩
  rw [shownMagnitude_of_isMasked hmasked, ← scaled_eq hvalue negative, ← hvalue,
    ← keep_eq_mod hbits]
  rfl

end Masked

/-! ## The text -/

/-- A layout that can be met shows every finite number. -/
theorem exists_shows {l : Layout} (hb : 2 ≤ l.base ∧ l.base ≤ 36) (hi : l.integers ≤ 64)
    (hf : l.fraction ≤ 64) {x : Double} {q : ℚ} (hx : x.toRat? = some q) :
    ∃ text whole fraction ds, l.display x = .ok text ∧ l.Shows q text whole fraction ds := by
  have hok := radix_eq_ok hb (by rw [maxDigits]; omega)
  obtain ⟨negative, rank, rfl, rfl⟩ := Double.exists_finite_of_toRat? hx
  exact ⟨_, _, _, _, by rw [display, hok]; rfl, shows_displayFinite rfl negative _⟩

theorem isAlphanum_of_mem_basePrefix {base : ℕ} {c : Char} (hc : c ∈ basePrefix base) :
    c.isAlphanum = true := by
  have hall : (basePrefix base).all Char.isAlphanum = true := by
    unfold basePrefix
    split_ifs <;> rfl
  exact List.all_eq_true.1 hall c hc

namespace Shows

variable {l : Layout} {q : ℚ} {text whole fraction : Text} {ds : List ℕ}
  (h : l.Shows q text whole fraction ds) (hmasked : l.IsMasked)

include h hmasked

/-- The digits fill the field and no more. -/
theorem length_of_isMasked : ds.length = max l.integers 1 + l.fraction := by
  have hbase := hmasked.base_bounds
  have hlength : (Nat.digits l.base (l.shownMagnitude q)).length ≤ l.digitCount :=
    (Nat.digits_length_le_iff (by omega) _).2 (shownMagnitude_lt_of_isMasked hmasked q)
  rw [h.length_eq]
  exact max_eq_left hlength

omit hmasked in
theorem isAlphanum_of_mem_digits (hbase : l.base ≤ 36) {c : Char}
    (hc : c ∈ whole.filter (· != '_') ++ fraction) : c.isAlphanum = true := by
  rw [h.digits_eq] at hc
  obtain ⟨d, hd, rfl⟩ := List.mem_map.1 hc
  exact isAlphanum_digitChar d ((h.digits_lt d hd).trans_le hbase)

/-- The text has letters and figures, the marks of groups and the point, and nothing else. -/
theorem mem_text_of_isMasked {c : Char} (hc : c ∈ text) :
    c = '_' ∨ c = '.' ∨ c.isAlphanum = true := by
  have hbase := hmasked.base_bounds.2
  rw [h.text_eq, if_neg (not_showsMinus_of_isMasked hmasked q), List.nil_append] at hc
  rcases List.mem_append.1 hc with hc | hc
  · split at hc
    · exact .inr (.inr (isAlphanum_of_mem_basePrefix hc))
    · cases hc
  rcases List.mem_append.1 hc with hc | hc
  · by_cases hmark : c = '_'
    · exact .inl hmark
    · right; right
      apply h.isAlphanum_of_mem_digits hbase
      exact List.mem_append_left _ (List.mem_filter.2 ⟨hc, by simpa using hmark⟩)
  · split at hc
    · cases hc
    · rcases List.mem_cons.1 hc with hpoint | hc
      · exact .inr (.inl hpoint)
      · right; right
        apply h.isAlphanum_of_mem_digits hbase
        exact List.mem_append_right _ hc

theorem unsigned_of_isMasked : ∀ c ∈ text, c ≠ '-' ∧ c ≠ '+' := by
  intro c hc
  rcases h.mem_text_of_isMasked hmasked hc with rfl | rfl | halnum
  · decide
  · decide
  · constructor
    · rintro rfl
      cases halnum
    · rintro rfl
      cases halnum

end Shows

end Layout

namespace AnswerReader

/-- In a fixed field of base 2, 8 or 16 the text of a finite number has as many digits as the field
and no sign, and it is read back as the number that the mask leaves of it, to the bit. -/
theorem read?_display_mask {l : Layout} (hb : l.base = 2 ∨ l.base = 8 ∨ l.base = 16)
    (hi : l.integers ≤ 64) (hf : l.fraction ≤ 64) (hexact : l.exactDigits = true) {x : Double}
    {q : ℚ} (hx : x.toRat? = some q) :
    ∃ text whole fraction ds reader masked, l.display x = .ok text ∧
      l.Shows q text whole fraction ds ∧ ds.length = max l.integers 1 + l.fraction ∧
      (∀ c ∈ text, c ≠ '-' ∧ c ≠ '+') ∧ l.mask x = .ok masked ∧
      AnswerReader.make l.base .standard = .ok reader ∧
      reader.read? text = some ⟨masked.value, []⟩ := by
  have hmasked : l.IsMasked := ⟨hexact, hb⟩
  have hrange := hmasked.base_bounds
  obtain ⟨k, hk, hbase⟩ := exists_two_pow hb
  obtain ⟨text, whole, fraction, ds, hdisplay, hshows⟩ := Layout.exists_shows hrange hi hf hx
  obtain ⟨masked, hmask, hvalue⟩ := Layout.exists_mask hmasked hi hf hx
  obtain ⟨text', reader, value, r, wholeDigits, fractionDigits, hdisplay', hmake, hread, hfrom⟩ :=
    exists_read?_display hrange hi hf hx
  rw [hdisplay] at hdisplay'
  cases hdisplay'
  refine ⟨text, whole, fraction, ds, reader, masked, hdisplay, hshows,
    hshows.length_of_isMasked hmasked, hshows.unsigned_of_isMasked hmasked, hmask, hmake, ?_⟩
  have hsame : value = masked.value := by
    have hds := hfrom.digits_lt
    have hshort := Layout.isShort_shownMagnitude hmasked hx
    have hdigits := hfrom.valueOfDigits_eq
    have hlength := hfrom.length_fraction
    rw [← hdigits, hbase] at hshort
    rw [hbase] at hds
    rw [hfrom.value_eq, decide_eq_false (Layout.not_showsMinus_of_isMasked hmasked q), hvalue,
      valueOf_eq_div hk hds hshort (hfrom.base_eq.trans hbase) (hlength.trans_le hf),
      if_neg Bool.false_ne_true, pow_mul, ← hbase, hdigits, hlength]
  rw [hread, hsame]

/-- -22.375 in a field of one hexadecimal digit before the point and one behind it. -/
theorem read?_display_mask_hexadecimal :
    (⟨16, 1, 1, 0, true, false⟩ : Layout).display (.ofBits 0xC036600000000000) =
      .ok ['6', '.', '6'] ∧
    ∃ reader masked, (⟨16, 1, 1, 0, true, false⟩ : Layout).mask (.ofBits 0xC036600000000000) =
        .ok masked ∧ masked.value = .ofBits 0x4019800000000000 ∧
      AnswerReader.make 16 .standard = .ok reader ∧
      reader.read? ['6', '.', '6'] = some ⟨masked.value, []⟩ := by
  have hdisplay : (⟨16, 1, 1, 0, true, false⟩ : Layout).display (.ofBits 0xC036600000000000) =
      .ok ['6', '.', '6'] := by decide +kernel
  have hvalue : (Double.ofBits 0xC036600000000000).toRat? = some (-179 / 8) := by decide +kernel
  have hleft : ((⟨16, 1, 1, 0, true, false⟩ : Layout).mask (.ofBits 0xC036600000000000)).map
      Layout.Masked.value = .ok (.ofBits 0x4019800000000000) := by decide +kernel
  obtain ⟨text, whole, fraction, ds, reader, masked, htext, -, -, -, hmask, hmake, hread⟩ :=
    read?_display_mask (l := ⟨16, 1, 1, 0, true, false⟩) (.inr (.inr rfl)) (by decide)
      (by decide) rfl hvalue
  rw [hdisplay] at htext
  cases htext
  rw [hmask] at hleft
  exact ⟨hdisplay, reader, masked, hmask, Except.ok.inj hleft, hmake, hread⟩

end AnswerReader

end RadixCalc
