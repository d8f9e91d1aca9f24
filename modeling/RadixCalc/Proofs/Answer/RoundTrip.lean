import RadixCalc.Proofs.Answer.Reading
import RadixCalc.Proofs.Layout.Digits

/-!
# Reading back what is shown

A number in a layout, with the separators of a reader put in, is read back digit for digit: neither
a mark nor a point nor a prefix is lost on the way or taken for something else.

The marks of a text are replaced by `putMarks`, and reading does not depend on which mark stands
between the groups as long as the reader passes over it; so the neutral text and the localized one
are two cases of `read?_displayFinite`. Where a text stands behind the number, its reader goes on as
`AnswerReader.readBehind` says. `Locale.read?_display` is the result for readers made from settings,
in terms of the digits that the text shows.
-/

namespace RadixCalc

/-- A text with a decimal separator and a mark between groups in place of the neutral ones. -/
def putMarks (point : Char) (mark text : Text) : Text :=
  text.flatMap fun c =>
    if c = pointMark then [point] else if c = groupMark then mark else [c]

theorem Locale.localize_eq (locale : Locale) (group : ℕ) (text : Text) :
    locale.localize group text = putMarks locale.point
      (if group = Layout.thousandsGroup then locale.thousands else [groupMark]) text := by
  unfold localize putMarks
  congr 1
  funext c
  grind

section Marks

variable (point : Char) (mark : Text)

theorem putMarks_append (text more : Text) :
    putMarks point mark (text ++ more) = putMarks point mark text ++ putMarks point mark more :=
  List.flatMap_append

theorem putMarks_groupMark (text : Text) :
    putMarks point mark (groupMark :: text) = mark ++ putMarks point mark text := rfl

theorem putMarks_pointMark (text : Text) :
    putMarks point mark (pointMark :: text) = point :: putMarks point mark text := rfl

theorem putMarks_cons {c : Char} (hpoint : c ≠ pointMark) (hgroup : c ≠ groupMark) (text : Text) :
    putMarks point mark (c :: text) = c :: putMarks point mark text := by
  rw [putMarks, List.flatMap_cons, if_neg hpoint, if_neg hgroup]
  rfl

theorem putMarks_digitChar {d : ℕ} (hd : d < 36) (text : Text) :
    putMarks point mark (digitChar d :: text) = digitChar d :: putMarks point mark text :=
  putMarks_cons point mark (digitChar_ne hd (by decide)) (digitChar_ne hd (by decide)) text

theorem putMarks_map_digitChar {ds : List ℕ} (hds : ∀ d ∈ ds, d < 36) :
    putMarks point mark (ds.map digitChar) = ds.map digitChar := by
  induction ds with
  | nil => rfl
  | cons d ds ih =>
    have hd : d < 36 := hds d (by simp)
    rw [List.map_cons, putMarks_digitChar _ _ hd, ih fun d' hd' => hds d' (by simp [hd'])]

/-- Digits in groups: behind a digit stands the mark or nothing, and then the other digits. -/
theorem putMarks_groupDigits_cons (size : ℕ) {d : ℕ} (hd : d < 36) (ds : List ℕ) :
    ∃ gap, (gap = [] ∨ gap = mark) ∧
      putMarks point mark (groupDigits size ((d :: ds).map digitChar)) =
        digitChar d :: (gap ++ putMarks point mark (groupDigits size (ds.map digitChar))) := by
  rw [List.map_cons, groupDigits]
  split
  · refine ⟨mark, .inr rfl, ?_⟩
    rw [putMarks_digitChar _ _ hd, putMarks_groupMark]
  · refine ⟨[], .inl rfl, ?_⟩
    rw [putMarks_digitChar _ _ hd, List.nil_append]

theorem mem_putMarks_groupDigits (size : ℕ) {ds : List ℕ} (hds : ∀ d ∈ ds, d < 36) :
    ∀ c ∈ putMarks point mark (groupDigits size (ds.map digitChar)),
      c ∈ mark ∨ ∃ d ∈ ds, c = digitChar d := by
  induction ds with
  | nil =>
    intro c hc
    cases hc
  | cons d ds ih =>
    have ih := ih fun d' hd' => hds d' (by simp [hd'])
    obtain ⟨gap, hgap, htext⟩ := putMarks_groupDigits_cons point mark size (hds d (by simp)) ds
    intro c hc
    rw [htext, List.mem_cons, List.mem_append] at hc
    rcases hc with rfl | hc | hc
    · exact .inr ⟨d, by simp, rfl⟩
    · rcases hgap with rfl | rfl
      · cases hc
      · exact .inl hc
    · exact (ih c hc).imp_right fun ⟨d', hd', h⟩ => ⟨d', by simp [hd'], h⟩

/-- The letters and figures among digits in groups are the digits. -/
theorem filter_putMarks_groupDigits (size : ℕ) (hmark : ∀ c ∈ mark, c.isAlphanum = false)
    {ds : List ℕ} (hds : ∀ d ∈ ds, d < 36) :
    (putMarks point mark (groupDigits size (ds.map digitChar))).filter Char.isAlphanum =
      ds.map digitChar := by
  induction ds with
  | nil => rfl
  | cons d ds ih =>
    have hd : d < 36 := hds d (by simp)
    have ih := ih fun d' hd' => hds d' (by simp [hd'])
    obtain ⟨gap, hgap, htext⟩ := putMarks_groupDigits_cons point mark size hd ds
    have hnone : gap.filter Char.isAlphanum = [] := by
      rcases hgap with rfl | rfl
      · rfl
      · exact List.filter_eq_nil_iff.2 fun c hc => by simp [hmark c hc]
    rw [htext, List.filter_cons_of_pos (isAlphanum_digitChar d hd), List.filter_append, hnone,
      List.nil_append, ih, List.map_cons]

end Marks

/-- The neutral marks put in place of themselves. -/
theorem putMarks_neutral (text : Text) : putMarks '.' ['_'] text = text := by
  unfold putMarks
  conv_rhs => rw [← List.flatMap_singleton' text]
  congr 1
  funext c
  by_cases hpoint : c = '.'
  · rw [if_pos (show c = pointMark from hpoint), hpoint]
  · by_cases hgroup : c = '_'
    · rw [if_neg (show c ≠ pointMark from hpoint), if_pos (show c = groupMark from hgroup), hgroup]
    · rw [if_neg (show c ≠ pointMark from hpoint), if_neg (show c ≠ groupMark from hgroup)]

/-! ## The number behind the sign and the prefix -/

namespace Layout

/-- The digits of a magnitude with their marks. -/
def numberText (l : Layout) (r : Radix) (point : Char) (mark : Text) (units : ℕ) : Text :=
  putMarks point mark (groupDigits l.group ((l.wholeDigits r units).map digitChar)) ++
    if l.fraction = 0 then [] else point :: (l.fractionDigits r units).map digitChar

section Number

variable (l : Layout) (r : Radix) (point : Char) (mark : Text) (units : ℕ)

theorem wholeDigits_lt_thirtySix : ∀ d ∈ l.wholeDigits r units, d < 36 :=
  fun d hd => (l.wholeDigits_lt r units d hd).trans_le r.le_thirtySix

theorem fractionDigits_lt_thirtySix : ∀ d ∈ l.fractionDigits r units, d < 36 :=
  fun d hd => (l.fractionDigits_lt r units d hd).trans_le r.le_thirtySix

theorem mem_numberText {c : Char} (hc : c ∈ l.numberText r point mark units) :
    (c = point ∨ c ∈ mark) ∨ ∃ d < r.value, c = digitChar d := by
  rcases List.mem_append.1 hc with hc | hc
  · rcases mem_putMarks_groupDigits point mark l.group (l.wholeDigits_lt_thirtySix r units) c hc
      with h | ⟨d, hd, h⟩
    · exact .inl (.inr h)
    · exact .inr ⟨d, l.wholeDigits_lt r units d hd, h⟩
  · split at hc
    · cases hc
    · rcases List.mem_cons.1 hc with h | hc
      · exact .inl (.inl h)
      · obtain ⟨d, hd, rfl⟩ := List.mem_map.1 hc
        exact .inr ⟨d, l.fractionDigits_lt r units d hd, rfl⟩

theorem putMarks_prefixText : putMarks point mark (l.prefixText r) = l.prefixText r := by
  unfold prefixText Radix.shownPrefix?
  split_ifs <;> rfl

/-- Marks change nothing but the number. -/
theorem putMarks_unsignedText :
    putMarks point mark (l.unsignedText r units) =
      l.prefixText r ++ l.numberText r point mark units := by
  rw [unsignedText, putMarks_append, putMarks_append, putMarks_prefixText, numberText, fractionText]
  split
  · rfl
  · rw [putMarks_pointMark, putMarks_map_digitChar _ _ (l.fractionDigits_lt_thirtySix r units)]

theorem putMarks_displayFinite (negative : Bool) :
    putMarks point mark (l.displayFinite r negative units) =
      Double.signText (l.showsMinus r negative (l.magnitude r units))
        (l.prefixText r ++ l.numberText r point mark units) := by
  rw [displayFinite_eq, Double.signText, Double.signText, ← putMarks_unsignedText]
  split
  · exact putMarks_cons _ _ (by decide) (by decide) _
  · rfl

/-- Behind the sign stands a letter or a figure. -/
theorem exists_cons_number :
    ∃ c rest, l.prefixText r ++ l.numberText r point mark units = c :: rest ∧
      c.isAlphanum = true := by
  obtain ⟨c, rest, htext, hc⟩ := l.exists_cons_unsigned r units
  have hne : ∀ m : Char, m.isAlphanum = false → c ≠ m := by
    rintro m hm rfl
    rw [hm] at hc
    cases hc
  rw [← putMarks_unsignedText, htext, putMarks_cons _ _ (hne _ rfl) (hne _ rfl)]
  exact ⟨c, _, rfl, hc⟩

theorem ne_space_of_mem_prefixText {c : Char} (hc : c ∈ l.prefixText r) : c ≠ ' ' := by
  rintro rfl
  rcases l.prefixText_cases r with hnil | ⟨c, hshown, hletter⟩
  · rw [hnil] at hc
    cases hc
  · rw [hshown] at hc
    obtain rfl : ' ' = c := by simpa using hc
    cases hletter

end Number

end Layout

/-! ## Reading it -/

theorem signText_append (negative : Bool) (text rest : Text) :
    Double.signText negative text ++ rest = Double.signText negative (text ++ rest) := by
  cases negative <;> rfl

theorem readSign_signText {c : Char} (hc : c.isAlphanum = true) (negative : Bool) (rest : Text) :
    Numeral.readSign (Double.signText negative (c :: rest)) = (negative, c :: rest) := by
  cases negative with
  | true => rfl
  | false =>
    rw [Double.signText, if_neg Bool.false_ne_true, Numeral.readSign]
    · rintro _ ⟨⟩
      exact Bool.noConfusion hc
    · rintro _ ⟨⟩
      exact Bool.noConfusion hc

theorem filter_space_signText (negative : Bool) (text : Text) :
    (Double.signText negative text).filter (· != ' ') =
      Double.signText negative (text.filter (· != ' ')) := by
  cases negative <;> rfl

namespace AnswerReader

/-- What a reader makes of a text behind a number in a layout: more digits of its last part, a
fraction where the number has none, and what is left as a unit. -/
def readBehind (reader : AnswerReader) (l : Layout) (r : Radix) (text : Text) :
    List ℕ × List ℕ × Text :=
  if l.fraction = 0 then
    ((reader.digits r text).1, reader.readFraction r (reader.digits r text).2)
  else ([], reader.digits r text)

theorem readBehind_nil (reader : AnswerReader) (l : Layout) (r : Radix) :
    reader.readBehind l r [] = ([], [], []) := by
  rw [readBehind, digits_nil]
  split <;> rfl

variable {reader : AnswerReader} (hplain : reader.locale.IsPlain) {mark : Text}
  (hmark : reader.Skips mark)

include hplain hmark

/-- Digits in groups are read as the digits. -/
theorem digits_putMarks_groupDigits {r : Radix} (point : Char) (size : ℕ) {ds : List ℕ}
    (hds : ∀ d ∈ ds, d < r.value) (text : Text) :
    reader.digits r (putMarks point mark (groupDigits size (ds.map digitChar)) ++ text) =
      (ds ++ (reader.digits r text).1, (reader.digits r text).2) := by
  induction ds with
  | nil => rfl
  | cons d ds ih =>
    have hd : d < r.value := hds d (by simp)
    have ih := ih fun d' hd' => hds d' (by simp [hd'])
    obtain ⟨gap, hgap, htext⟩ :=
      putMarks_groupDigits_cons point mark size (hd.trans_le r.le_thirtySix) ds
    have hskip : ∀ more, reader.digits r (gap ++ more) = reader.digits r more := by
      rcases hgap with rfl | rfl
      · exact fun more => rfl
      · exact digits_mark_append hplain hmark
    rw [htext, List.cons_append, List.append_assoc,
      digits_cons (Radix.digitValue?_digitChar hd), hskip, ih]
    rfl

/-- Behind the digits of a number its reader goes on as `readBehind` says. -/
theorem digits_numberText_append (l : Layout) (r : Radix) (units : ℕ) (text : Text) :
    ∃ behind, reader.digits r (l.numberText r reader.locale.point mark units ++ text) =
        (l.wholeDigits r units ++ (reader.readBehind l r text).1, behind) ∧
      reader.readFraction r behind =
        (l.fractionDigits r units ++ (reader.readBehind l r text).2.1,
          (reader.readBehind l r text).2.2) := by
  have hlen := l.length_fractionDigits r units
  rw [Layout.numberText, List.append_assoc,
    digits_putMarks_groupDigits hplain hmark _ _ (l.wholeDigits_lt r units), readBehind]
  split
  · next hzero =>
    have hnil : l.fractionDigits r units = [] := List.length_eq_zero_iff.1 (hlen.trans hzero)
    rw [hnil]
    exact ⟨_, rfl, rfl⟩
  · next hpos =>
    have hhead : ∀ c ∈ ((l.fractionDigits r units).map digitChar ++ text).head?,
        c.isAlphanum = true := by
      intro c hc
      cases hds : l.fractionDigits r units with
      | nil => simp [hds] at hlen; omega
      | cons d ds =>
        obtain rfl : digitChar d = c := by simpa [hds] using hc
        exact isAlphanum_digitChar d (l.fractionDigits_lt_thirtySix r units d (by simp [hds]))
    rw [List.cons_append, digits_point hplain hhead, List.append_nil]
    refine ⟨_, rfl, ?_⟩
    rw [readFraction, if_pos rfl, digits_map_digitChar_append (l.fractionDigits_lt r units)]

/-- The number is read as its whole digits, and the fraction behind them as its digits. -/
theorem digits_numberText (l : Layout) (r : Radix) (units : ℕ) :
    ∃ behind, reader.digits r (l.numberText r reader.locale.point mark units) =
        (l.wholeDigits r units, behind) ∧
      reader.readFraction r behind = (l.fractionDigits r units, []) := by
  have happend := digits_numberText_append hplain hmark l r units []
  simp only [readBehind_nil, List.append_nil] at happend
  exact happend

/-- The letters and figures of a number are digits of its radix. -/
theorem mem_numberText_isAlphanum (l : Layout) (r : Radix) (units : ℕ) :
    ∀ c ∈ l.numberText r reader.locale.point mark units, c.isAlphanum = true →
      ∃ d < r.value, c = digitChar d := by
  intro c hc halnum
  rcases l.mem_numberText r _ _ units hc with (rfl | hmem) | hdigit
  · exact absurd halnum (by simp [(hplain _ List.mem_cons_self).1])
  · exact absurd halnum (by simp [hmark.isAlphanum hplain c hmem])
  · exact hdigit

theorem readRadix_number {l : Layout} {r : Radix}
    (hr : reader.radix? = some r ∨
      reader.radix? = none ∧ (r = .decimal ∨ l.prefixText r ≠ [])) (units : ℕ) :
    reader.readRadix (l.prefixText r ++ l.numberText r reader.locale.point mark units) =
      (r, l.numberText r reader.locale.point mark units) := by
  rcases l.prefixText_cases r with hnil | ⟨c, hshown, hc⟩
  · rw [hnil, List.nil_append]
    exact readRadix_of_digits (hr.imp_right fun h => ⟨h.1, h.2.resolve_right (· hnil)⟩)
      (mem_numberText_isAlphanum hplain hmark l r units)
  · rw [hshown]
    exact readRadix_of_prefix (hr.imp_right And.left) hc _

theorem filter_space_number (l : Layout) (r : Radix) (units : ℕ) :
    (l.prefixText r ++ l.numberText r reader.locale.point mark units).filter (· != ' ') =
      l.prefixText r ++ l.numberText r reader.locale.point mark units := by
  apply List.filter_eq_self.2
  intro c hc
  have hne : c ≠ ' ' := by
    rcases List.mem_append.1 hc with hc | hc
    · exact l.ne_space_of_mem_prefixText r hc
    · rcases l.mem_numberText r _ _ units hc with (rfl | hmem) | ⟨d, hd, rfl⟩
      · exact (hplain _ List.mem_cons_self).2.2
      · exact hmark.ne_space hplain c hmem
      · exact digitChar_ne (hd.trans_le r.le_thirtySix) (by decide)
  exact bne_iff_ne.2 hne

omit hplain hmark in
theorem readSign_number (l : Layout) (r : Radix) (units : ℕ) (negative : Bool) :
    Numeral.readSign (Double.signText negative
      (l.prefixText r ++ l.numberText r reader.locale.point mark units)) =
      (negative, l.prefixText r ++ l.numberText r reader.locale.point mark units) := by
  obtain ⟨c, rest, htext, hc⟩ := l.exists_cons_number r reader.locale.point mark units
  rw [htext]
  exact readSign_signText hc negative rest

/-- A finite number in a layout is read back digit for digit, whatever the reader takes for the mark
between its groups. -/
theorem read?_displayFinite {l : Layout} {r : Radix}
    (hr : reader.radix? = some r ∨
      reader.radix? = none ∧ (r = .decimal ∨ l.prefixText r ≠ [])) (negative : Bool) (units : ℕ) :
    reader.read? (putMarks reader.locale.point mark (l.displayFinite r negative units)) =
      some ⟨valueOf r (l.showsMinus r negative (l.magnitude r units)) (l.wholeDigits r units)
        (l.fractionDigits r units), []⟩ := by
  obtain ⟨behind, hdigits, hfraction⟩ := digits_numberText hplain hmark l r units
  have hne : (l.wholeDigits r units).isEmpty = false :=
    List.isEmpty_eq_false_iff.2 (l.wholeDigits_ne_nil r units)
  rw [Layout.putMarks_displayFinite, read?, filter_space_signText,
    filter_space_number hplain hmark, readSign_number]
  simp only [readRadix_number hplain hmark hr, hdigits, hfraction, hne, Bool.false_and]
  rfl

end AnswerReader

/-! ## Readers made from settings -/

namespace Locale

/-- The text shows these digits of a base: a sign, a prefix, the whole digits with marks among them,
and the digits of the fraction behind the decimal separator. No mark is a letter or a figure. -/
structure ShowsDigits (locale : Locale) (l : Layout) (text marked : Text) (negative : Bool)
    (whole fraction : List ℕ) : Prop where
  text_eq : text = (if negative then ['-'] else []) ++
    ((if l.showRadix then Layout.basePrefix l.base else []) ++
      (marked ++ if l.fraction = 0 then [] else locale.point :: fraction.map digitChar))
  head?_eq : text.head? = some '-' ↔ negative = true
  marked_eq : marked.filter Char.isAlphanum = whole.map digitChar
  length_fraction : fraction.length = l.fraction
  digits_lt : ∀ d ∈ whole ++ fraction, d < l.base

theorem ShowsDigits.of_exactDigits {locale : Locale} {l : Layout} {exactDigits : Bool}
    {text marked : Text} {negative : Bool} {whole fraction : List ℕ}
    (h : locale.ShowsDigits { l with exactDigits := exactDigits } text marked negative whole
      fraction) : locale.ShowsDigits l text marked negative whole fraction :=
  ⟨h.text_eq, h.head?_eq, h.marked_eq, h.length_fraction, h.digits_lt⟩

theorem showsDigits_displayFinite (locale : Locale) {mark : Text}
    (hmark : ∀ c ∈ mark, c.isAlphanum = false) {l : Layout} {r : Radix} (hr : r.value = l.base)
    (negative : Bool) (units : ℕ) :
    locale.ShowsDigits l (putMarks locale.point mark (l.displayFinite r negative units))
      (putMarks locale.point mark (groupDigits l.group ((l.wholeDigits r units).map digitChar)))
      (l.showsMinus r negative (l.magnitude r units)) (l.wholeDigits r units)
      (l.fractionDigits r units) := by
  rw [Layout.putMarks_displayFinite]
  refine ⟨?_, ?_, ?_, ?_, ?_⟩
  · rw [Double.signText, Layout.prefixText_eq hr, Layout.numberText]
    split <;> rfl
  · obtain ⟨c, rest, htext, hc⟩ := l.exists_cons_number r locale.point mark units
    have hne : c ≠ '-' := by
      rintro rfl
      cases hc
    rw [htext, Double.signText]
    split
    · next h => simp [h]
    · next h => simp [h, hne]
  · exact filter_putMarks_groupDigits _ _ _ hmark (l.wholeDigits_lt_thirtySix r units)
  · exact l.length_fractionDigits r units
  · rw [Layout.wholeDigits_append_fractionDigits, ← hr]
    exact l.shownDigits_lt r units

theorem isPlain_of_settings {s : Settings} {locale : Locale} (hs : s.locale = .ok locale)
    (hplain : ∀ c ∈ s.decimal ++ s.thousands, c.isAlphanum = false ∧ c ≠ '_' ∧ c ≠ ' ') :
    locale.IsPlain := by
  unfold Settings.locale at hs
  split at hs
  · next point hpoint =>
    split at hs
    · cases hs
    · cases hs
      rw [hpoint] at hplain
      exact hplain
  · cases hs

/-- A reader of a base expects numbers of that base; one that detects the base expects those in base
ten and those with a prefix. -/
theorem exists_reader (locale : Locale) {l : Layout} (hb : 2 ≤ l.base ∧ l.base ≤ 36) {base : ℕ}
    (hbase : base = l.base ∨ base = 0 ∧
      (l.base = 10 ∨ l.showRadix = true ∧ (l.base = 2 ∨ l.base = 8 ∨ l.base = 16))) :
    ∃ radix?, AnswerReader.make base locale = .ok ⟨radix?, locale⟩ ∧
      (radix? = some ⟨l.base, hb.1, hb.2⟩ ∨ radix? = none ∧
        (⟨l.base, hb.1, hb.2⟩ = Radix.decimal ∨ l.prefixText ⟨l.base, hb.1, hb.2⟩ ≠ [])) := by
  rcases hbase with rfl | ⟨rfl, hdetected⟩
  · refine ⟨some ⟨l.base, hb.1, hb.2⟩, ?_, .inl rfl⟩
    rw [AnswerReader.make, if_neg (by omega), Radix.ofNat?_eq_some hb]
  · refine ⟨none, rfl, .inr ⟨rfl, ?_⟩⟩
    rcases hdetected with hten | ⟨hshow, hbits⟩
    · left
      simp only [Radix.decimal, hten]
    · right
      rw [Layout.prefixText_eq rfl, if_pos hshow, Layout.basePrefix]
      rcases hbits with h | h | h <;> simp [h]

/-- A reader reads back what is shown to it, digit for digit. Separators that cannot be taken for
digits, for the neutral mark or for spaces are never lost and never stop a number short, and leading
digits are never taken for a prefix. A reader that detects the base reads numbers in base ten, and
those that show a prefix, in the same way. -/
theorem read?_display {s : Settings} {locale : Locale} (hs : s.locale = .ok locale)
    (hplain : ∀ c ∈ s.decimal ++ s.thousands, c.isAlphanum = false ∧ c ≠ '_' ∧ c ≠ ' ')
    {l : Layout} (hb : 2 ≤ l.base ∧ l.base ≤ 36) (hi : l.integers ≤ 64) (hf : l.fraction ≤ 64)
    {x : Double} (hx : x.isFinite = true) :
    ∃ text marked negative whole fraction, locale.display l x = .ok text ∧
      locale.ShowsDigits l text marked negative whole fraction ∧
      ∀ base, base = l.base ∨ base = 0 ∧
          (l.base = 10 ∨ l.showRadix = true ∧ (l.base = 2 ∨ l.base = 8 ∨ l.base = 16)) →
        ∃ reader, AnswerReader.make base locale = .ok reader ∧
          reader.read? text = some ⟨valueOfShown l.base negative whole fraction, []⟩ := by
  have hlocale := isPlain_of_settings hs hplain
  cases x with
  | nan => cases hx
  | infinity negative => cases hx
  | finite negative rank =>
    let r : Radix := ⟨l.base, hb.1, hb.2⟩
    -- Whether the field is fixed is for the settings to say.
    let fixed : Layout := { l with exactDigits := locale.exactDigits }
    let mark := if l.group = Layout.thousandsGroup then locale.thousands else [groupMark]
    have hok : fixed.radix = .ok r := Layout.radix_eq_ok hb (by rw [maxDigits]; omega)
    have hskips : ∀ radix?, AnswerReader.Skips ⟨radix?, locale⟩ mark := by
      intro radix?
      by_cases h : l.group = Layout.thousandsGroup
      · exact .inr (if_pos h)
      · exact .inl (if_neg h)
    have hmark : ∀ c ∈ mark, c.isAlphanum = false := (hskips none).isAlphanum hlocale
    have hshows := locale.showsDigits_displayFinite hmark (l := fixed) (r := r) rfl negative
      (Double.unitsOfRank rank)
    refine ⟨_, _, _, _, _, ?_, hshows.of_exactDigits, ?_⟩
    · rw [display, Layout.display, hok]
      exact congrArg Except.ok (localize_eq locale l.group _)
    · intro base hbase
      obtain ⟨radix?, hmake, hradix⟩ := exists_reader locale hb hbase
      have hread := AnswerReader.read?_displayFinite (l := fixed) (r := r) hlocale
        (hskips radix?) hradix negative (Double.unitsOfRank rank)
      rw [AnswerReader.valueOf_eq] at hread
      exact ⟨_, hmake, hread⟩

/-- 1234.5 in groups of thousands, where the separator of the thousands is two commas and that of
the fraction is one. -/
theorem read?_display_commas :
    (⟨[','], [',', ','], false⟩ : Settings).locale =
      .ok ⟨',', [',', ','], false, by decide⟩ ∧
    ∃ marked negative whole fraction reader,
      ShowsDigits ⟨',', [',', ','], false, by decide⟩ ⟨10, 1, 1, 3, false, false⟩
        ['1', ',', ',', '2', '3', '4', ',', '5'] marked negative whole fraction ∧
      AnswerReader.make 0 ⟨',', [',', ','], false, by decide⟩ = .ok reader ∧
      reader.read? ['1', ',', ',', '2', '3', '4', ',', '5'] =
        some ⟨valueOfShown 10 negative whole fraction, []⟩ := by
  have hs : (⟨[','], [',', ','], false⟩ : Settings).locale =
      .ok ⟨',', [',', ','], false, by decide⟩ := rfl
  have hdisplay : display ⟨',', [',', ','], false, by decide⟩ ⟨10, 1, 1, 3, false, false⟩
      (.ofBits 0x40934a0000000000) = .ok ['1', ',', ',', '2', '3', '4', ',', '5'] := by
    decide +kernel
  have hplain : ∀ c ∈ [',', ',', ','], c.isAlphanum = false ∧ c ≠ '_' ∧ c ≠ ' ' := by
    intro c hc
    fin_cases hc <;> decide
  obtain ⟨text, marked, negative, whole, fraction, htext, hshows, hread⟩ :=
    read?_display hs hplain (l := ⟨10, 1, 1, 3, false, false⟩) (by decide) (by decide)
      (by decide) (x := .ofBits 0x40934a0000000000) (by decide +kernel)
  rw [hdisplay] at htext
  cases htext
  obtain ⟨reader, hmake, hvalue⟩ := hread 0 (.inr ⟨rfl, .inl rfl⟩)
  exact ⟨hs, marked, negative, whole, fraction, reader, hshows, hmake, hvalue⟩

end Locale

end RadixCalc
