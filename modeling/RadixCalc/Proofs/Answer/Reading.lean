import RadixCalc.Answer
import RadixCalc.Proofs.Radix

/-!
# Reading runs of digits

A reader of answers passes over separators wherever it looks for a digit. The equations
`digits_nil`, `digits_cons`, `digits_of_separator` and `digits_stop` say what it does with the
front of a text; nothing here opens the reader apart from them.

* `Locale.IsPlain` is what separators must satisfy to be told from digits, from the neutral mark and
  from spaces.
* `digits_mark_append` passes over a mark, and `digits_point` stops in front of a fraction.
* `readRadix_of_prefix` and `readRadix_of_digits` settle what becomes of the first two characters:
  digits that look like a prefix are never one of their own radix.
* `valueOfShown` is the number that digits stand for, written out as the steps of its computation.
-/

namespace RadixCalc

/-- The separators contain no letter, no figure, no neutral mark and no space. -/
def Locale.IsPlain (locale : Locale) : Prop :=
  ∀ c ∈ locale.point :: locale.thousands, c.isAlphanum = false ∧ c ≠ groupMark ∧ c ≠ ' '

theorem Locale.isPlain_standard : Locale.standard.IsPlain := by
  intro c hc
  rcases List.mem_cons.1 hc with rfl | hc
  · decide
  · rw [List.mem_singleton.1 hc]
    decide

/-! ## Separators -/

namespace AnswerReader

variable {reader : AnswerReader}

theorem behindSeparator?_groupMark (text : Text) :
    reader.behindSeparator? (groupMark :: text) = some text := by
  rw [behindSeparator?, if_pos rfl]

theorem behindSeparator?_thousands (hplain : reader.locale.IsPlain)
    (hne : reader.locale.thousands ≠ []) (text : Text) :
    reader.behindSeparator? (reader.locale.thousands ++ text) = some text := by
  have hshown : reader.locale.thousands.isPrefixOf? (reader.locale.thousands ++ text) =
      some text := Text.isPrefixOf?_eq_some_iff.2 rfl
  cases hsep : reader.locale.thousands with
  | nil => exact absurd hsep hne
  | cons c cs =>
    have hc : c ≠ groupMark := (hplain c (by simp [hsep])).2.1
    rw [hsep] at hshown
    rw [List.cons_append, behindSeparator?, if_neg hc, hsep]
    exact hshown

/-- A thousands separator that begins with the decimal one is not found in front of a digit. -/
theorem behindSeparator?_point (hplain : reader.locale.IsPlain) {text : Text}
    (htext : ∀ c ∈ text.head?, c.isAlphanum = true) :
    reader.behindSeparator? (reader.locale.point :: text) = none := by
  have hpoint : reader.locale.point ≠ groupMark := (hplain _ (by simp)).2.1
  rw [behindSeparator?, if_neg hpoint]
  split
  · rfl
  · next hne =>
    cases hfound : reader.locale.thousands.isPrefixOf? (reader.locale.point :: text) with
    | none => rfl
    | some rest =>
      have hsplit := Text.isPrefixOf?_eq_some_iff.1 hfound
      -- The separator is longer than the point, so its second character is the digit.
      rcases hsep : reader.locale.thousands with _ | ⟨c, _ | ⟨c', cs⟩⟩
      · simp [hsep] at hne
      · rw [hsep] at hsplit
        have := reader.locale.thousands_ne_point
        simp_all
      · rw [hsep] at hsplit
        have halnum : c'.isAlphanum = true := htext c' (by simp_all)
        have := (hplain c' (by simp [hsep])).1
        simp_all

/-! ## Runs of digits -/

section Digits

variable {r : Radix}

theorem digits_nil : reader.digits r [] = ([], []) := by
  rw [digits]

theorem digits_cons {c : Char} {d : ℕ} (h : r.digitValue? c = some d) (text : Text) :
    reader.digits r (c :: text) =
      (d :: (reader.digits r text).1, (reader.digits r text).2) := by
  rw [digits, h]

theorem digits_of_separator {c : Char} {cs rest : Text} (h : r.digitValue? c = none)
    (hsep : reader.behindSeparator? (c :: cs) = some rest) :
    reader.digits r (c :: cs) = reader.digits r rest := by
  rw [digits, h]
  simp only
  split
  · next behind hbehind =>
    rw [hsep] at hbehind
    cases hbehind
    rfl
  · next hnone =>
    rw [hsep] at hnone
    cases hnone

theorem digits_stop {c : Char} {cs : Text} (h : r.digitValue? c = none)
    (hsep : reader.behindSeparator? (c :: cs) = none) :
    reader.digits r (c :: cs) = ([], c :: cs) := by
  rw [digits, h]
  simp only
  split
  · next behind hbehind =>
    rw [hsep] at hbehind
    cases hbehind
  · rfl

theorem digits_map_digitChar_append {ds : List ℕ} (hds : ∀ d ∈ ds, d < r.value) (text : Text) :
    reader.digits r (ds.map digitChar ++ text) =
      (ds ++ (reader.digits r text).1, (reader.digits r text).2) := by
  induction ds with
  | nil => rfl
  | cons d ds ih =>
    have hd : d < r.value := hds d (by simp)
    rw [List.map_cons, List.cons_append, digits_cons (Radix.digitValue?_digitChar hd),
      ih fun d' hd' => hds d' (by simp [hd'])]
    rfl

/-- The digits end in front of a decimal separator with a fraction behind it. -/
theorem digits_point (hplain : reader.locale.IsPlain) {text : Text}
    (htext : ∀ c ∈ text.head?, c.isAlphanum = true) :
    reader.digits r (reader.locale.point :: text) = ([], reader.locale.point :: text) :=
  digits_stop (Radix.digitValue?_of_not_isAlphanum (hplain _ (by simp)).1)
    (behindSeparator?_point hplain htext)

/-! ## Groups of digits -/

/-- The reader passes over this mark, the neutral one or its own. -/
def Skips (reader : AnswerReader) (mark : Text) : Prop :=
  mark = [groupMark] ∨ mark = reader.locale.thousands

theorem Skips.isAlphanum {mark : Text} (hmark : reader.Skips mark)
    (hplain : reader.locale.IsPlain) : ∀ c ∈ mark, c.isAlphanum = false := by
  intro c hc
  rcases hmark with rfl | rfl
  · rw [List.mem_singleton.1 hc]
    rfl
  · exact (hplain c (List.mem_cons_of_mem _ hc)).1

theorem Skips.ne_space {mark : Text} (hmark : reader.Skips mark)
    (hplain : reader.locale.IsPlain) : ∀ c ∈ mark, c ≠ ' ' := by
  intro c hc
  rcases hmark with rfl | rfl
  · rw [List.mem_singleton.1 hc]
    decide
  · exact (hplain c (List.mem_cons_of_mem _ hc)).2.2

theorem digits_mark_append (hplain : reader.locale.IsPlain) {mark : Text}
    (hmark : reader.Skips mark) (text : Text) :
    reader.digits r (mark ++ text) = reader.digits r text := by
  cases hcons : mark with
  | nil => rfl
  | cons c cs =>
    have hc : r.digitValue? c = none :=
      Radix.digitValue?_of_not_isAlphanum (hmark.isAlphanum hplain c (by simp [hcons]))
    rw [List.cons_append]
    apply digits_of_separator hc
    rw [← List.cons_append, ← hcons]
    rcases hmark with rfl | rfl
    · exact behindSeparator?_groupMark text
    · exact behindSeparator?_thousands hplain (by simp [hcons]) text

end Digits

/-! ## The radix -/

/-- The reader reads in this radix when its prefix stands in front. -/
def Expects (reader : AnswerReader) (r : Radix) : Prop :=
  reader.radix? = some r ∨ reader.radix? = none

theorem expects_iff_of_fixed {r s : Radix} (hr : reader.radix? = some r) :
    reader.Expects s ↔ r = s := by
  simp [Expects, hr]

theorem readRadix_of_prefix {r : Radix} (hr : reader.Expects r) {c : Char}
    (hc : Radix.ofLetter? c = some r) (text : Text) :
    reader.readRadix ('0' :: c :: text) = (r, text) := by
  have hfront : Radix.ofPrefix? (('0' :: c :: text).take 2) = some r := hc
  rw [readRadix, hfront]
  rcases hr with hr | hr
  · rw [hr]
    exact if_pos rfl
  · rw [hr]
    rfl

/-- Without a prefix that the reader expects, the radix is the fixed one, or ten. -/
theorem readRadix_of_not_expects {text : Text}
    (h : ∀ s, Radix.ofPrefix? (text.take 2) = some s → ¬reader.Expects s) :
    reader.readRadix text = (reader.radix?.getD .decimal, text) := by
  cases hfront : Radix.ofPrefix? (text.take 2) with
  | none =>
    rw [readRadix, hfront]
    cases reader.radix? <;> rfl
  | some s =>
    have hexpects := h s hfront
    rw [readRadix, hfront]
    cases hradix : reader.radix? with
    | none => exact absurd (.inr hradix) hexpects
    | some fixed =>
      have hne : fixed ≠ s := by
        rintro rfl
        exact hexpects (.inl hradix)
      exact if_neg hne

theorem exists_of_ofPrefix? {text : Text} {s : Radix}
    (h : Radix.ofPrefix? (text.take 2) = some s) :
    ∃ c behind, text = '0' :: c :: behind ∧ Radix.ofLetter? c = some s := by
  unfold Radix.ofPrefix? at h
  split at h
  · next c htake =>
    rcases text with _ | ⟨a, _ | ⟨b, behind⟩⟩
    · cases htake
    · cases htake
    · cases htake
      exact ⟨_, behind, rfl, h⟩
  · cases h

/-- Digits of a radix are no prefix of it, and no prefix at all up to base 10. -/
theorem lt_of_ofPrefix? {r s : Radix} {text : Text}
    (htext : ∀ c ∈ text, c.isAlphanum = true → ∃ d < r.value, c = digitChar d)
    (h : Radix.ofPrefix? (text.take 2) = some s) : s.value < r.value ∧ 10 < r.value := by
  obtain ⟨c, behind, rfl, hletter⟩ := exists_of_ofPrefix? h
  cases halnum : c.isAlphanum with
  | false =>
    rw [Radix.ofLetter?_of_not_isAlphanum halnum] at hletter
    cases hletter
  | true =>
    obtain ⟨d, hd, rfl⟩ := htext c (by simp) halnum
    have hle := Radix.value_le_of_ofLetter?_digitChar d (hd.trans_le r.le_thirtySix) s hletter
    omega

/-- Without a prefix the radix is the fixed one, or ten. -/
theorem readRadix_of_digits {r : Radix}
    (hr : reader.radix? = some r ∨ reader.radix? = none ∧ r = .decimal) {text : Text}
    (htext : ∀ c ∈ text, c.isAlphanum = true → ∃ d < r.value, c = digitChar d) :
    reader.readRadix text = (r, text) := by
  have hradix : reader.radix?.getD .decimal = r := by
    rcases hr with hr | ⟨hr, rfl⟩ <;> rw [hr] <;> rfl
  rw [readRadix_of_not_expects, hradix]
  intro s hfront hexpects
  obtain ⟨hlt, hten⟩ := lt_of_ofPrefix? htext hfront
  rcases hr with hr | ⟨-, rfl⟩
  · -- The digits would spell a prefix of their own radix.
    obtain rfl := (expects_iff_of_fixed hr).1 hexpects
    exact lt_irrefl _ hlt
  · exact absurd hten (by decide)

end AnswerReader

/-! ## The number of the digits -/

/-- The double that digits before and behind a point stand for. Each digit is added to the base
times what stands before it, and the digits of the fraction are divided off at the end. -/
def valueOfShown (base : ℕ) (negative : Bool) (whole fraction : List ℕ) : Double :=
  let all := (whole ++ fraction).foldl
    (fun acc digit => acc * Double.ofNat base + Double.ofNat digit) (.zero false)
  let magnitude :=
    if fraction = [] then all else all / (Double.ofNat base).powNat fraction.length
  if negative then -magnitude else magnitude

theorem AnswerReader.valueOf_eq (r : Radix) (negative : Bool) (whole fraction : List ℕ) :
    valueOf r negative whole fraction = valueOfShown r.value negative whole fraction := by
  cases fraction <;> rfl

end RadixCalc
