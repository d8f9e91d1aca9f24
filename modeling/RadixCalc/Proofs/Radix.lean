import RadixCalc.Proofs.Digits
import RadixCalc.Radix

/-!
# Digits and letters of a radix

Only letters and figures have a value as digits, and only letters name a radix. So a mark is
neither, a figure names no radix, and a letter that names a radix is no digit of it.

* `Radix.digitValue?_digitChar` reads a digit of a radix back.
* `Radix.letters` are the letters that name a radix, and `Radix.ofLetter?_eq_some_iff` says so.
* `Radix.value_le_of_ofLetter?_digitChar` says that a letter names no radix of which it is a digit.
-/

namespace RadixCalc

/-! ## Characters -/

theorem toNat_of_isAlphanum {c : Char} (h : c.isAlphanum = true) :
    48 ≤ c.toNat ∧ c.toNat ≤ 122 := by
  have hcode : c.val.toNat = c.toNat := rfl
  have hcodes : 'A'.val.toNat = 65 ∧ 'Z'.val.toNat = 90 ∧ 'a'.val.toNat = 97 ∧
      'z'.val.toNat = 122 ∧ '0'.val.toNat = 48 ∧ '9'.val.toNat = 57 := by decide
  simp only [Char.isAlphanum, Char.isAlpha, Char.isUpper, Char.isLower, Char.isDigit,
    Bool.or_eq_true, Bool.and_eq_true, decide_eq_true_eq, ge_iff_le, UInt32.le_iff_toNat_le] at h
  omega

/-- Only letters and figures are digits. -/
theorem digitValue?_of_not_isAlphanum {c : Char} (h : c.isAlphanum = false) :
    digitValue? c = none := by
  simp only [Char.isAlphanum, Char.isAlpha, Char.isUpper, Char.isLower, Char.isDigit,
    Bool.or_eq_false_iff, Bool.and_eq_false_iff, decide_eq_false_iff_not] at h
  unfold digitValue?
  rw [if_neg, if_neg, if_neg]
  all_goals
    rintro ⟨h₁, h₂⟩
    simp only [Char.le_def] at h₁ h₂
    grind

namespace Radix

variable {r : Radix}

theorem digitValue?_of_not_isAlphanum {c : Char} (h : c.isAlphanum = false) :
    r.digitValue? c = none := by
  rw [digitValue?, RadixCalc.digitValue?_of_not_isAlphanum h]
  rfl

theorem digitValue?_eq_none_iff {c : Char} :
    r.digitValue? c = none ↔ ∀ d, RadixCalc.digitValue? c = some d → r.value ≤ d := by
  rw [digitValue?, Option.filter_eq_none_iff]
  exact forall₂_congr fun d hd => by simp

theorem digitValue?_digitChar {d : ℕ} (hd : d < r.value) :
    r.digitValue? (digitChar d) = some d := by
  rw [digitValue?, RadixCalc.digitValue?_digitChar d (hd.trans_le r.le_thirtySix)]
  simp [hd]

theorem eq_some_iff_map_value {r? : Option Radix} :
    r? = some r ↔ r?.map Radix.value = some r.value := by
  cases r? with
  | none => simp
  | some s =>
    obtain ⟨base, -, -⟩ := s
    obtain ⟨base', -, -⟩ := r
    simp

/-! ## Letters -/

/-- A letter that names a radix is no digit of it. -/
theorem value_le_of_ofLetter?_digitChar :
    ∀ d < 36, ∀ s ∈ ofLetter? (digitChar d), s.value ≤ d ∧ 10 ≤ d := by
  decide

theorem toLower_of_not_isAlphanum {c : Char} (h : c.isAlphanum = false) : c.toLower = c := by
  simp only [Char.isAlphanum, Char.isAlpha, Char.isUpper, Bool.or_eq_false_iff,
    decide_eq_false_iff_not] at h
  unfold Char.toLower
  rw [dif_neg]
  tauto

/-- Only letters name a radix. -/
theorem ofLetter?_of_not_isAlphanum {c : Char} (h : c.isAlphanum = false) : ofLetter? c = none := by
  unfold ofLetter?
  rw [toLower_of_not_isAlphanum h]
  split
  all_goals first | rfl | exact Bool.noConfusion h

/-- A figure names no radix. -/
theorem ofLetter?_of_isDigit {c : Char} (h : c.isDigit = true) : ofLetter? c = none := by
  have hlower : c.toLower = c := by
    unfold Char.toLower
    rw [dif_neg]
    simp only [Char.isDigit, Bool.and_eq_true, decide_eq_true_eq, ge_iff_le,
      UInt32.le_iff_toNat_le] at h ⊢
    have hcodes : 'A'.val.toNat = 65 ∧ '9'.val.toNat = 57 := by decide
    omega
  unfold ofLetter?
  rw [hlower]
  split
  all_goals first | rfl | exact Bool.noConfusion h

/-- The letters that name a radix, with the bases. -/
def letters : List (Char × ℕ) :=
  [('b', 2), ('o', 8), ('d', 10), ('x', 16), ('B', 2), ('O', 8), ('D', 10), ('X', 16)]

theorem map_ofLetter?_of_mem_letters {c : Char} {base : ℕ} (h : (c, base) ∈ letters) :
    (ofLetter? c).map value = some base := by
  have hletters : ∀ entry ∈ letters, (ofLetter? entry.1).map value = some entry.2 := by decide
  exact hletters _ h

theorem mem_letters_of_ofLetter? {c : Char} (h : ofLetter? c = some r) :
    (c, r.value) ∈ letters := by
  have hcodes : ∀ n < 123, ∀ r ∈ ofLetter? (Char.ofNat n),
      (Char.ofNat n, r.value) ∈ letters := by decide
  have halnum : c.isAlphanum = true := by
    by_contra hne
    rw [Bool.not_eq_true] at hne
    rw [ofLetter?_of_not_isAlphanum hne] at h
    cases h
  have hcode := hcodes c.toNat (Nat.lt_succ_of_le (toNat_of_isAlphanum halnum).2)
  rw [Char.ofNat_toNat] at hcode
  exact hcode r h

/-- Just these letters name a radix. -/
theorem ofLetter?_eq_some_iff {c : Char} : ofLetter? c = some r ↔ (c, r.value) ∈ letters :=
  ⟨mem_letters_of_ofLetter?, fun h => eq_some_iff_map_value.2 (map_ofLetter?_of_mem_letters h)⟩

end Radix

end RadixCalc
