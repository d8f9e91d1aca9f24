import RadixCalc.Proofs.Answer.RoundTrip
import RadixCalc.Worksheet

/-!
# Units behind a number

An answer is a number with a unit behind it and a space between them. A reader drops every space
before it reads, so that nothing parts the two any more: the first letter of the unit stands right
behind the last digit. It is read as a digit where it is one, and behind a lone zero it can complete
a prefix; in every other case the number ends in front of it.

* `AnswerReader.read?_append` reads a number with any text behind it, and
  `AnswerReader.read?_unit_iff` says when this text is left alone.
* `Worksheet.read?_answer_iff` is the result for the answers of a worksheet.
-/

namespace RadixCalc

namespace AnswerReader

variable {reader : AnswerReader} {r : Radix}

/-! ## What is left unread -/

theorem length_digits_le (reader : AnswerReader) (r : Radix) (text : Text) :
    (reader.digits r text).2.length ≤ text.length := by
  fun_induction digits reader r text with
  | case1 => exact le_rfl
  | case2 c cs d hd ds rest hrest ih =>
    rw [hrest] at ih
    exact ih.trans (Nat.le_succ _)
  | case3 c cs hd behind hbehind hlt ih => exact ih.trans (by simpa using hlt.le)
  | case4 c cs hd hbehind => exact le_rfl

theorem length_readFraction_le (reader : AnswerReader) (r : Radix) (text : Text) :
    (reader.readFraction r text).2.length ≤ text.length := by
  cases text with
  | nil => exact le_rfl
  | cons c cs =>
    rw [readFraction]
    split
    · exact (reader.length_digits_le r cs).trans (Nat.le_succ _)
    · exact le_rfl

/-! ## The text behind a number -/

/-- A text is left as the unit if the reader finds no digit and no point in front. -/
theorem readBehind_of_stop {c : Char} {cs : Text} (hdigit : r.digitValue? c = none)
    (hsep : reader.behindSeparator? (c :: cs) = none) (hpoint : c ≠ reader.locale.point)
    (l : Layout) : reader.readBehind l r (c :: cs) = ([], [], c :: cs) := by
  rw [readBehind, digits_stop hdigit hsep, readFraction, if_neg hpoint, ite_self]

/-- A text that begins with a digit loses it. -/
theorem length_readBehind_le (reader : AnswerReader) {c : Char} {d : ℕ}
    (hdigit : r.digitValue? c = some d) (cs : Text) (l : Layout) :
    (reader.readBehind l r (c :: cs)).2.2.length ≤ cs.length := by
  have hrest := reader.length_digits_le r cs
  rw [readBehind, digits_cons hdigit]
  split
  · exact (reader.length_readFraction_le r _).trans hrest
  · exact hrest

/-! ## The radix -/

theorem readRadix_of_ne (hr : reader.radix? = some r) {text : Text}
    (h : Radix.ofPrefix? (text.take 2) ≠ some r) : reader.readRadix text = (r, text) := by
  rw [readRadix_of_not_expects, hr, Option.getD_some]
  intro s hfront hexpects
  obtain rfl := (expects_iff_of_fixed hr).1 hexpects
  exact h hfront

/-- A letter that turns a lone zero into the prefix of its radix. -/
def CompletesPrefix (r : Radix) (number text : Text) : Prop :=
  number = ['0'] ∧ ∃ c ∈ text.head?, Radix.ofLetter? c = some r

theorem ofPrefix?_append_ne {number text : Text} (hne : number ≠ [])
    (hnumber : ∀ c ∈ number, c.isAlphanum = true → ∃ d < r.value, c = digitChar d)
    (hclear : ¬CompletesPrefix r number text) :
    Radix.ofPrefix? ((number ++ text).take 2) ≠ some r := by
  intro h
  rcases number with _ | ⟨a, _ | ⟨b, more⟩⟩
  · exact hne rfl
  · -- The second character is the first of the text.
    cases text with
    | nil => simp [Radix.ofPrefix?] at h
    | cons c cs =>
      simp only [Radix.ofPrefix?, List.cons_append, List.nil_append, List.take_succ_cons,
        List.take_zero] at h
      split at h
      · next heq =>
        cases heq
        exact hclear ⟨rfl, _, rfl, h⟩
      · cases h
  · exact lt_irrefl _ (lt_of_ofPrefix? hnumber h).1

section Fixed

variable (hplain : reader.locale.IsPlain) {mark : Text} (hmark : reader.Skips mark)
  (hr : reader.radix? = some r) (l : Layout) (units : ℕ)

include hplain hmark hr

theorem readRadix_append (text : Text)
    (hclear : ¬CompletesPrefix r
      (l.prefixText r ++ l.numberText r reader.locale.point mark units) text) :
    reader.readRadix (l.prefixText r ++ l.numberText r reader.locale.point mark units ++ text) =
      (r, l.numberText r reader.locale.point mark units ++ text) := by
  rcases l.prefixText_cases r with hnil | ⟨c, hshown, hc⟩
  · obtain ⟨a, rest, hcons, -⟩ := l.exists_cons_number r reader.locale.point mark units
    rw [hnil, List.nil_append] at hclear hcons ⊢
    refine readRadix_of_ne hr (ofPrefix?_append_ne ?_ ?_ hclear)
    · rw [hcons]
      exact List.cons_ne_nil _ _
    · exact mem_numberText_isAlphanum hplain hmark l r units
  · rw [hshown]
    exact readRadix_of_prefix (.inl hr) hc _

/-- A number in a layout with a text behind it: the reader drops the spaces of the text and takes
from its front what `readBehind` says. -/
theorem read?_append (negative : Bool) (text : Text)
    (hclear : ¬CompletesPrefix r (l.prefixText r ++
      l.numberText r reader.locale.point mark units) (text.filter (· != ' '))) :
    reader.read? (putMarks reader.locale.point mark (l.displayFinite r negative units) ++ text) =
      some ⟨valueOf r (l.showsMinus r negative (l.magnitude r units))
        (l.wholeDigits r units ++ (reader.readBehind l r (text.filter (· != ' '))).1)
        (l.fractionDigits r units ++ (reader.readBehind l r (text.filter (· != ' '))).2.1),
        (reader.readBehind l r (text.filter (· != ' '))).2.2⟩ := by
  generalize hbehind : text.filter (· != ' ') = behind at *
  obtain ⟨rest, hdigits, hfraction⟩ := digits_numberText_append hplain hmark l r units behind
  obtain ⟨c, cs, hcons, hc⟩ := l.exists_cons_number r reader.locale.point mark units
  have hne : (l.wholeDigits r units ++ (reader.readBehind l r behind).1).isEmpty = false :=
    List.isEmpty_eq_false_iff.2 (List.append_ne_nil_of_left_ne_nil (l.wholeDigits_ne_nil r units) _)
  have hsign := readSign_signText hc (l.showsMinus r negative (l.magnitude r units)) (cs ++ behind)
  rw [← List.cons_append, ← hcons] at hsign
  rw [Layout.putMarks_displayFinite, read?, List.filter_append, hbehind, filter_space_signText,
    filter_space_number hplain hmark, signText_append, hsign]
  simp only [readRadix_append hplain hmark hr l units behind hclear, hdigits, hfraction, hne,
    Bool.false_and]
  rfl

end Fixed

/-- Where a letter completes a prefix it is not left as part of the unit. -/
theorem length_unit_lt_of_completesPrefix (hr : reader.radix? = some r) {number text : Text}
    (hcompletes : CompletesPrefix r number (text.filter (· != ' '))) {a : Answer}
    (h : reader.read? (number ++ text) = some a) :
    a.unit.length < (text.filter (· != ' ')).length := by
  obtain ⟨rfl, c, hhead, hletter⟩ := hcompletes
  generalize hbehind : text.filter (· != ' ') = behind at *
  obtain ⟨cs, rfl⟩ := List.head?_eq_some_iff.1 hhead
  have hsplit : (['0'] ++ text).filter (· != ' ') = '0' :: c :: cs := by
    rw [List.filter_append, hbehind]
    rfl
  have hsign : Numeral.readSign ('0' :: c :: cs) = (false, '0' :: c :: cs) :=
    readSign_signText (by decide) false _
  have hradix : reader.readRadix ('0' :: c :: cs) = (r, cs) :=
    readRadix_of_prefix (.inl hr) hletter cs
  rw [read?, hsplit, hsign] at h
  simp only [hradix] at h
  split at h
  · cases h
  · cases h
    exact Nat.lt_succ_of_le
      ((reader.length_readFraction_le r _).trans (reader.length_digits_le r cs))

end AnswerReader

/-! ## A lone zero -/

namespace Layout

variable {point : Char} {mark : Text} (hpoint : point.isAlphanum = false)
  (hmark : ∀ c ∈ mark, c.isAlphanum = false) (l : Layout) (r : Radix) (units : ℕ)

include hpoint hmark

/-- The letters and figures of a number are its digits. -/
theorem filter_numberText :
    (l.numberText r point mark units).filter Char.isAlphanum =
      (l.shownDigits r units).map digitChar := by
  have hfraction : (if l.fraction = 0 then []
      else point :: (l.fractionDigits r units).map digitChar).filter Char.isAlphanum =
      (l.fractionDigits r units).map digitChar := by
    split
    · next hzero =>
      rw [List.length_eq_zero_iff.1 ((l.length_fractionDigits r units).trans hzero)]
      rfl
    · rw [List.filter_cons_of_neg (by simp [hpoint]), List.filter_eq_self]
      intro c hc
      obtain ⟨d, hd, rfl⟩ := List.mem_map.1 hc
      exact isAlphanum_digitChar d (l.fractionDigits_lt_thirtySix r units d hd)
  rw [numberText, List.filter_append, filter_putMarks_groupDigits point mark l.group hmark
    (l.wholeDigits_lt_thirtySix r units), hfraction, ← List.map_append,
    wholeDigits_append_fractionDigits]

/-- Only a zero is shown as a single figure 0. -/
theorem magnitude_of_number_eq_zero
    (h : l.prefixText r ++ l.numberText r point mark units = ['0']) :
    l.magnitude r units = 0 := by
  have hbare : l.prefixText r = [] := by
    rcases l.prefixText_cases r with hnil | ⟨c, hshown, -⟩
    · exact hnil
    · simp [hshown] at h
  rw [hbare, List.nil_append] at h
  have hdigits := filter_numberText hpoint hmark l r units
  rw [h] at hdigits
  obtain ⟨d, hd, hzero⟩ := List.map_eq_singleton_iff.1 hdigits.symm
  have hlt : d < 36 := (l.shownDigits_lt r units d (by simp [hd])).trans_le r.le_thirtySix
  have hd0 : d = 0 := by
    have hvalue := digitValue?_digitChar d hlt
    rw [hzero] at hvalue
    exact (Option.some.inj hvalue).symm
  have hmagnitude : valueOfDigits r.value (l.shownDigits r units) = l.magnitude r units :=
    valueOfDigits_paddedDigits _ _ _
  rw [← hmagnitude, hd, hd0]
  simp [valueOfDigits]

/-- A zero shown as a single figure has no sign. -/
theorem putMarks_displayFinite_eq_zero_iff (negative : Bool) :
    putMarks point mark (l.displayFinite r negative units) = ['0'] ↔
      l.prefixText r ++ l.numberText r point mark units = ['0'] := by
  rw [putMarks_displayFinite]
  constructor
  · intro h
    cases hminus : l.showsMinus r negative (l.magnitude r units) with
    | false => rwa [hminus] at h
    | true =>
      rw [hminus] at h
      cases h
  · intro h
    rw [h, showsMinus, magnitude_of_number_eq_zero hpoint hmark l r units h]
    simp [Double.signText]

end Layout

/-! ## Units that leave the number alone -/

/-- A unit leaves a number alone, and is read back without its spaces, just when its first letter is
no digit and does not turn the number into a prefix. -/
theorem AnswerReader.read?_unit_iff {reader : AnswerReader} {r : Radix}
    (hplain : reader.locale.IsPlain) {mark : Text} (hmark : reader.Skips mark)
    (hr : reader.radix? = some r) (l : Layout) (negative : Bool) (units : ℕ) {c : Char}
    (hspace : c ≠ ' ') (hpoint : c ≠ reader.locale.point)
    (hsep : ∀ cs, reader.behindSeparator? (c :: cs) = none) (unit : Text) :
    reader.read? (putMarks reader.locale.point mark (l.displayFinite r negative units) ++
        ' ' :: c :: unit) =
      some ⟨valueOf r (l.showsMinus r negative (l.magnitude r units)) (l.wholeDigits r units)
        (l.fractionDigits r units), (c :: unit).filter (· != ' ')⟩ ↔
    r.digitValue? c = none ∧
      ¬(putMarks reader.locale.point mark (l.displayFinite r negative units) = ['0'] ∧
        Radix.ofLetter? c = some r) := by
  have hzero := Layout.putMarks_displayFinite_eq_zero_iff (hplain _ List.mem_cons_self).1
    (hmark.isAlphanum hplain) l r units negative
  have hunit : (c :: unit).filter (· != ' ') = c :: unit.filter (· != ' ') :=
    List.filter_cons_of_pos (bne_iff_ne.2 hspace)
  have hspaced : (' ' :: c :: unit).filter (· != ' ') = c :: unit.filter (· != ' ') := hunit
  by_cases hcompletes : CompletesPrefix r
      (l.prefixText r ++ l.numberText r reader.locale.point mark units)
      (c :: unit.filter (· != ' '))
  · -- The letter is lost to the prefix.
    obtain ⟨hnumber, c', hc', hletter⟩ := hcompletes
    obtain rfl : c = c' := Option.some.inj hc'
    refine iff_of_false ?_ fun h => h.2 ⟨hzero.2 hnumber, hletter⟩
    intro h
    have hlt := length_unit_lt_of_completesPrefix hr
      ⟨hzero.2 hnumber, c, by rw [hspaced]; rfl, hletter⟩ h
    rw [hspaced, hunit] at hlt
    exact lt_irrefl _ hlt
  · have hclear : ¬(putMarks reader.locale.point mark (l.displayFinite r negative units) = ['0'] ∧
        Radix.ofLetter? c = some r) := fun h => hcompletes ⟨hzero.1 h.1, c, rfl, h.2⟩
    rw [read?_append hplain hmark hr l units negative _ (by rwa [hspaced]), hspaced, hunit,
      and_iff_left hclear]
    cases hdigit : r.digitValue? c with
    | none =>
      rw [readBehind_of_stop hdigit (hsep _) hpoint, List.append_nil, List.append_nil]
      simp
    | some d =>
      refine iff_of_false ?_ (Option.some_ne_none d)
      intro h
      have hrest : (reader.readBehind l r (c :: unit.filter (· != ' '))).2.2 =
          c :: unit.filter (· != ' ') := congrArg Answer.unit (Option.some.inj h)
      have hle := reader.length_readBehind_le hdigit (unit.filter (· != ' ')) l
      rw [hrest] at hle
      exact absurd hle (Nat.not_succ_le_self _)

/-- Readers with the standard separators pass over an underscore and a comma only. -/
theorem AnswerReader.behindSeparator?_standard {radix? : Option Radix} {c : Char} (hgroup : c ≠ '_')
    (hcomma : c ≠ ',') (cs : Text) : behindSeparator? ⟨radix?, .standard⟩ (c :: cs) = none := by
  rw [behindSeparator?, if_neg (show c ≠ groupMark from hgroup)]
  change (if ',' == c then some cs else none) = none
  rw [if_neg (by simpa using hcomma.symm)]

/-- A letter is neither a space nor one of the marks that readers pass over. -/
theorem ne_mark_of_isAlphabetic {c : Char} (hc : Text.isAlphabetic c = true) :
    c ≠ ' ' ∧ c ≠ '.' ∧ c ≠ '_' ∧ c ≠ ',' := by
  refine ⟨?_, ?_, ?_, ?_⟩ <;> rintro rfl <;> revert hc <;> decide +kernel

namespace Worksheet

/-- An answer with a unit is read back as the answer without it and the unit without its spaces, for
a unit that begins with a letter, unless this letter is a digit of the base or stands behind a
lone zero whose prefix it completes. -/
theorem read?_answer_iff {w : Worksheet} (hw : w.locale = .standard) {formula : Text} {x : Double}
    (hx : w.calculate formula = .ok x) (hfinite : x.isFinite = true) {l : Layout}
    (hb : 2 ≤ l.base ∧ l.base ≤ 36) (hi : l.integers ≤ 64) (hf : l.fraction ≤ 64) {c : Char}
    (hc : Text.isAlphabetic c = true) (unit : Text) :
    ∃ text textUnit reader value, w.answer formula l [] = .ok text ∧
      w.answer formula l (c :: unit) = .ok textUnit ∧
      AnswerReader.make l.base .standard = .ok reader ∧
      reader.read? text = some ⟨value, []⟩ ∧
      (reader.read? textUnit = some ⟨value, (c :: unit).filter (· != ' ')⟩ ↔
        (∀ d, digitValue? c = some d → l.base ≤ d) ∧
          ¬(text = ['0'] ∧ (Radix.ofLetter? c).map Radix.value = some l.base)) := by
  cases x with
  | nan => cases hfinite
  | infinity negative => cases hfinite
  | finite negative rank =>
    let r : Radix := ⟨l.base, hb.1, hb.2⟩
    let units := Double.unitsOfRank rank
    -- The settings of the worksheet ask for no fixed field.
    let free : Layout := { l with exactDigits := false }
    let mark := if l.group = Layout.thousandsGroup then [','] else ['_']
    obtain ⟨hspace, hpoint, hgroup, hcomma⟩ := ne_mark_of_isAlphabetic hc
    let shown := putMarks '.' mark (free.displayFinite r negative units)
    have hok : free.radix = .ok r := Layout.radix_eq_ok hb (by rw [maxDigits]; omega)
    have hdisplay : w.locale.display l (.finite negative rank) = .ok shown := by
      rw [hw, Locale.display, Layout.display, show Locale.standard.exactDigits = false from rfl,
        hok]
      exact congrArg Except.ok (Locale.localize_eq .standard l.group _)
    have hmake : AnswerReader.make l.base .standard = .ok ⟨some r, .standard⟩ := by
      rw [AnswerReader.make, if_neg (by omega), Radix.ofNat?_eq_some hb]
    have hskips : AnswerReader.Skips ⟨some r, .standard⟩ mark := by
      by_cases h : l.group = Layout.thousandsGroup
      · exact .inr (if_pos h)
      · exact .inl (if_neg h)
    have hanswer : ∀ more, w.answer formula l more = .ok (if more.isEmpty then shown else
        shown ++ ' ' :: more) := by
      intro more
      rw [answer, hx]
      simp only [hdisplay]
    refine ⟨shown, shown ++ ' ' :: c :: unit, ⟨some r, .standard⟩, _, hanswer [],
      hanswer (c :: unit), hmake, AnswerReader.read?_displayFinite Locale.isPlain_standard hskips
        (l := free) (.inl rfl) negative units, ?_⟩
    rw [← Radix.digitValue?_eq_none_iff (r := r), ← Radix.eq_some_iff_map_value (r := r)]
    exact AnswerReader.read?_unit_iff Locale.isPlain_standard hskips rfl free negative units
      hspace hpoint (AnswerReader.behindSeparator?_standard hgroup hcomma) unit

/-- A mass in base 16. -/
theorem read?_answer_kilograms :
    answer ⟨[], .standard⟩ "255".toList ⟨16, 1, 0, 0, false, false⟩ "kg".toList =
      .ok "FF kg".toList ∧
    ∃ reader value, AnswerReader.make 16 .standard = .ok reader ∧
      reader.read? "FF".toList = some ⟨value, []⟩ ∧
      reader.read? "FF kg".toList = some ⟨value, "kg".toList⟩ := by
  have htext : answer ⟨[], .standard⟩ "255".toList ⟨16, 1, 0, 0, false, false⟩ [] =
      .ok "FF".toList := by decide +kernel
  have hunit : answer ⟨[], .standard⟩ "255".toList ⟨16, 1, 0, 0, false, false⟩ "kg".toList =
      .ok "FF kg".toList := by decide +kernel
  have hvalue : calculate ⟨[], .standard⟩ "255".toList = .ok (.ofBits 0x406fe00000000000) := by
    decide +kernel
  obtain ⟨text, textUnit, reader, value, htext', hunit', hmake, hread, hiff⟩ :=
    read?_answer_iff rfl hvalue (by decide +kernel) (l := ⟨16, 1, 0, 0, false, false⟩) (by decide)
      (by decide) (by decide) (c := 'k') (by decide) ['g']
  obtain rfl := Except.ok.inj (htext.symm.trans htext')
  obtain rfl := Except.ok.inj (hunit.symm.trans hunit')
  exact ⟨hunit, reader, value, hmake, hread, hiff.2 (by decide)⟩

/-- Centimetres in base 16, where their first letter is read as a digit, and days behind a zero in
base ten, where the letter makes a prefix with no digits behind it. -/
theorem read?_answer_taken :
    (calculate ⟨[], .standard⟩ "255".toList = .ok (.ofNat 255) ∧
      answer ⟨[], .standard⟩ "255".toList ⟨16, 1, 0, 0, false, false⟩ [] = .ok "FF".toList ∧
      answer ⟨[], .standard⟩ "255".toList ⟨16, 1, 0, 0, false, false⟩ "cm".toList =
        .ok "FF cm".toList ∧
      AnswerReader.make 16 .standard = .ok ⟨some .hexadecimal, .standard⟩ ∧
      AnswerReader.read? ⟨some .hexadecimal, .standard⟩ "FF".toList = some ⟨.ofNat 255, []⟩ ∧
      AnswerReader.read? ⟨some .hexadecimal, .standard⟩ "FF cm".toList =
        some ⟨.ofNat 4092, "m".toList⟩ ∧
      Double.ofNat 4092 ≠ .ofNat 255) ∧
    (answer ⟨[], .standard⟩ "0".toList ⟨10, 1, 0, 0, false, false⟩ "d".toList =
        .ok "0 d".toList ∧
      AnswerReader.make 10 .standard = .ok ⟨some .decimal, .standard⟩ ∧
      AnswerReader.read? ⟨some .decimal, .standard⟩ "0 d".toList = none) := by
  decide +kernel

end Worksheet
end RadixCalc
