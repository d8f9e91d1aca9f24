import RadixCalc.Locale
import RadixCalc.Proofs.Decimal.ReadsOff
import RadixCalc.Proofs.Layout.Digits
import RadixCalc.Proofs.Radix

/-!
# What a directive spells

A directive has five parts behind its percent sign: a mark for the prefix, a mark for the groups,
the figures before the point, the point with the figures behind it, and the letter of the base. All
but the letter may be absent, and no part begins with a character that an earlier one could end
with; so the parts are read one behind the other without looking back.

* `Layout.Spells` is the grammar, with the layout that each text of it denotes.
* `Layout.ofDirective?_eq_some_iff` says that reading accepts exactly this grammar.
* `Layout.ofDirective_cases` adds the failure of all other texts, and that every number can be shown
  in the layout of a directive.
-/

namespace RadixCalc.Layout

/-! ## Grammar -/

/-- The mark that asks for the prefix. -/
inductive PrefixMark : Text → Bool → Prop
  | absent : PrefixMark [] false
  | small : PrefixMark ['p'] true
  | capital : PrefixMark ['P'] true

/-- The mark that asks for groups, with their size. -/
inductive GroupMark : Text → ℕ → Prop
  | absent : GroupMark [] 0
  | thousands : GroupMark [','] 3
  | quads : GroupMark ['_'] 4

/-- Figures, of any number and with any zeros in front, and the number they stand for. -/
structure Figures (text : Text) (n : ℕ) : Prop where
  isDigit : ∀ c ∈ text, c.isDigit = true
  value_eq : Nat.ofDigits 10 (figureValues text).reverse = n

/-- A point with at least one figure behind it. -/
inductive FractionPart : Text → ℕ → Prop
  | absent : FractionPart [] 0
  | figures {text : Text} {n : ℕ} (hne : text ≠ []) (h : Figures text n) :
    FractionPart ('.' :: text) n

/-- The text is a directive and denotes the layout. -/
structure Spells (text : Text) (l : Layout) : Prop where
  split : ∃ mark group integers fraction letter,
    text = '%' :: (mark ++ (group ++ (integers ++ (fraction ++ [letter])))) ∧
      PrefixMark mark l.showRadix ∧ GroupMark group l.group ∧ Figures integers l.integers ∧
      FractionPart fraction l.fraction ∧ (letter, l.base) ∈ Radix.letters
  integers_le : l.integers ≤ 64
  fraction_le : l.fraction ≤ 64
  exactDigits_eq : l.exactDigits = false

/-! ## Figures -/

theorem figures_iff {text : Text} {n : ℕ} :
    Figures text n ↔ (∀ c ∈ text, c.isDigit = true) ∧ valueOfFigures text = n := by
  rw [valueOfFigures, valueOfDigits_eq_ofDigits]
  exact ⟨fun h => ⟨h.isDigit, h.value_eq⟩, fun h => ⟨h.1, h.2⟩⟩

/-- Figures that are read as a width stand for it. -/
theorem figures_of_widthOfFigures? {figures : Text} {n : ℕ}
    (hdigits : ∀ c ∈ figures, c.isDigit = true) (h : widthOfFigures? figures = some n) :
    Figures figures n := by
  unfold widthOfFigures? at h
  simp only at h
  split at h
  · exact figures_iff.2 ⟨hdigits, Option.some.inj h⟩
  · cases h

/-- Figures that stand for a width within the limit are read as it: the limit is far below the words
that are read. -/
theorem Figures.widthOfFigures?_eq {figures : Text} {n : ℕ} (h : Figures figures n) (hn : n ≤ 64) :
    widthOfFigures? figures = some n := by
  obtain ⟨-, hvalue⟩ := figures_iff.1 h
  have hword : n < UInt64.size := hn.trans_lt (by decide)
  rw [widthOfFigures?, hvalue]
  exact if_pos hword

/-- A width is read where there are figures. -/
theorem readWidth_eq (text : Text) :
    readWidth text = (if (Numeral.readFigures text).1 = [] then none
      else some (widthOfFigures? (Numeral.readFigures text).1), (Numeral.readFigures text).2) := by
  unfold readWidth
  split
  · next heq =>
    rw [heq]
    rfl
  · next hne heq => rw [heq, if_neg hne]

/-! ## What is read is in the grammar -/

theorem exists_prefixMark (text : Text) :
    ∃ mark, text = mark ++ (readShowRadix text).2 ∧ PrefixMark mark (readShowRadix text).1 := by
  unfold readShowRadix
  split
  · exact ⟨['p'], rfl, .small⟩
  · exact ⟨['P'], rfl, .capital⟩
  · exact ⟨[], rfl, .absent⟩

theorem exists_groupMark (text : Text) :
    ∃ mark, text = mark ++ (readGroup text).2 ∧ GroupMark mark (readGroup text).1 := by
  unfold readGroup
  split
  · exact ⟨[','], rfl, .thousands⟩
  · exact ⟨['_'], rfl, .quads⟩
  · exact ⟨[], rfl, .absent⟩

theorem eq_of_readWidth_none {text rest : Text} (h : readWidth text = (none, rest)) :
    text = rest := by
  have hsplit := Numeral.readFigures_append_rest text
  rw [readWidth_eq] at h
  split at h
  · next hnil =>
    obtain ⟨-, rfl⟩ := Prod.mk.inj h
    rw [hnil] at hsplit
    exact hsplit.symm
  · cases (Prod.mk.inj h).1

/-- A width that is read has figures and is what they stand for. -/
theorem exists_figures_of_readWidth {text rest : Text} {n : ℕ}
    (h : readWidth text = (some (some n), rest)) :
    ∃ figures, figures ≠ [] ∧ text = figures ++ rest ∧ Figures figures n := by
  have hsplit := Numeral.readFigures_append_rest text
  rw [readWidth_eq] at h
  split at h
  · cases (Prod.mk.inj h).1
  · next hne =>
    obtain ⟨hwidth, rfl⟩ := Prod.mk.inj h
    exact ⟨_, hne, hsplit.symm,
      figures_of_widthOfFigures? Numeral.isDigit_of_mem_readFigures (Option.some.inj hwidth)⟩

theorem exists_integerPart {text rest : Text} {n : ℕ}
    (h : readIntegerWidth? text = some (n, rest)) :
    ∃ figures, text = figures ++ rest ∧ Figures figures n := by
  unfold readIntegerWidth? at h
  split at h
  · next heq =>
    cases h
    exact ⟨[], eq_of_readWidth_none heq, figures_iff.2 ⟨nofun, rfl⟩⟩
  · cases h
  · next heq =>
    cases h
    obtain ⟨figures, -, htext, hfigures⟩ := exists_figures_of_readWidth heq
    exact ⟨figures, htext, hfigures⟩

theorem exists_fractionPart {text rest : Text} {n : ℕ}
    (h : readFractionWidth? text = some (n, rest)) :
    ∃ part, text = part ++ rest ∧ FractionPart part n := by
  unfold readFractionWidth? at h
  split at h
  · split at h
    · cases h
    · cases h
    · next heq =>
      cases h
      obtain ⟨figures, hne, htext, hfigures⟩ := exists_figures_of_readWidth heq
      exact ⟨'.' :: figures, congrArg ('.' :: ·) htext, .figures hne hfigures⟩
  · cases h
    exact ⟨[], rfl, .absent⟩

/-- A layout that is read off a text is spelled by it. -/
theorem spells_of_ofDirective? {text : Text} {l : Layout} (h : ofDirective? text = some l) :
    Spells text l := by
  unfold ofDirective? at h
  split at h
  · next body =>
    obtain ⟨mark, hmark, hshow⟩ := exists_prefixMark body
    obtain ⟨group, hgroup, hsize⟩ := exists_groupMark (readShowRadix body).2
    unfold ofDirectiveBody? at h
    simp only at h
    split at h
    · cases h
    · next integers afterIntegers hintegers =>
      obtain ⟨figures, hfigures, hwidth⟩ := exists_integerPart hintegers
      split at h
      · next fraction letter hfraction =>
        obtain ⟨part, hpart, hplaces⟩ := exists_fractionPart hfraction
        split at h
        · next r hr =>
          split at h
          · next hle =>
            cases h
            refine ⟨⟨mark, group, figures, part, letter, ?_, hshow, hsize, hwidth, hplaces,
              Radix.mem_letters_of_ofLetter? hr⟩, hle.1, hle.2, rfl⟩
            rw [← hpart, ← hfigures, ← hgroup, ← hmark]
          · cases h
        · cases h
      · cases h
  · cases h

/-! ## What is in the grammar is read -/

/-- What holds of the first character of two texts holds of the first character of both in a row. -/
theorem forall_head?_append {P : Char → Prop} {x y : Text} (hx : ∀ c ∈ x.head?, P c)
    (hy : ∀ c ∈ y.head?, P c) : ∀ c ∈ (x ++ y).head?, P c := by
  cases x with
  | nil => exact hy
  | cons d x => exact hx

/-- A letter of a base is no part of a number and none of the marks. -/
theorem baseLetter_kind {c : Char} {base : ℕ} (h : (c, base) ∈ Radix.letters) :
    c.isDigit = false ∧ c ≠ '.' ∧ c ∉ ['p', 'P'] ∧ c ∉ [',', '_'] := by
  have hletters : ∀ entry ∈ Radix.letters, entry.1.isDigit = false ∧ entry.1 ≠ '.' ∧
      entry.1 ∉ ['p', 'P'] ∧ entry.1 ∉ [',', '_'] := by decide
  exact hletters _ h

theorem PrefixMark.read_append {mark rest : Text} {b : Bool} (h : PrefixMark mark b)
    (hrest : ∀ c ∈ rest.head?, c ∉ ['p', 'P']) : readShowRadix (mark ++ rest) = (b, rest) := by
  cases h with
  | absent =>
    rw [List.nil_append]
    unfold readShowRadix
    split
    · exact absurd (by simp) (hrest _ rfl)
    · exact absurd (by simp) (hrest _ rfl)
    · rfl
  | small => rfl
  | capital => rfl

theorem GroupMark.read_append {mark rest : Text} {size : ℕ} (h : GroupMark mark size)
    (hrest : ∀ c ∈ rest.head?, c ∉ [',', '_']) : readGroup (mark ++ rest) = (size, rest) := by
  cases h with
  | absent =>
    rw [List.nil_append]
    unfold readGroup
    split
    · exact absurd (by simp) (hrest _ rfl)
    · exact absurd (by simp) (hrest _ rfl)
    · rfl
  | thousands => rfl
  | quads => rfl

theorem GroupMark.head?_not_prefix {mark : Text} {size : ℕ} (h : GroupMark mark size) :
    ∀ c ∈ mark.head?, c ∉ ['p', 'P'] := by
  cases h with
  | absent => exact nofun
  | thousands => rintro _ ⟨⟩; decide
  | quads => rintro _ ⟨⟩; decide

theorem Figures.read_append {figures rest : Text} {n : ℕ} (h : Figures figures n) (hn : n ≤ 64)
    (hdigit : ∀ c ∈ rest.head?, c.isDigit = false) :
    readIntegerWidth? (figures ++ rest) = some (n, rest) := by
  obtain ⟨hdigits, hvalue⟩ := figures_iff.1 h
  rw [readIntegerWidth?, readWidth_eq, Numeral.readFigures_append hdigits hdigit,
    h.widthOfFigures?_eq hn]
  by_cases hnil : figures = []
  · rw [if_pos hnil, ← hvalue, hnil]
    rfl
  · rw [if_neg hnil]

theorem FractionPart.read_append {part rest : Text} {n : ℕ} (h : FractionPart part n) (hn : n ≤ 64)
    (hdigit : ∀ c ∈ rest.head?, c.isDigit = false) (hpoint : ∀ c ∈ rest.head?, c ≠ '.') :
    readFractionWidth? (part ++ rest) = some (n, rest) := by
  cases h with
  | absent =>
    rw [List.nil_append]
    unfold readFractionWidth?
    split
    · exact absurd rfl (hpoint _ rfl)
    · rfl
  | @figures text _ hne h =>
    obtain ⟨hdigits, -⟩ := figures_iff.1 h
    rw [List.cons_append, readFractionWidth?, readWidth_eq,
      Numeral.readFigures_append hdigits hdigit, if_neg hne, h.widthOfFigures?_eq hn]

theorem FractionPart.head?_eq {part : Text} {n : ℕ} (h : FractionPart part n) :
    ∀ c ∈ part.head?, c = '.' := by
  cases h with
  | absent => exact nofun
  | figures => rintro _ ⟨⟩; rfl

theorem Figures.head?_not_mem {text : Text} {n : ℕ} (h : Figures text n) {marks : List Char}
    (hmarks : ∀ m ∈ marks, m.isDigit = false) : ∀ c ∈ text.head?, c ∉ marks := by
  intro c hc hmem
  have hdigit := h.isDigit c (List.mem_of_mem_head? hc)
  rw [hmarks c hmem] at hdigit
  cases hdigit

/-- A text of the grammar is read as the layout that it denotes. -/
theorem Spells.ofDirective?_eq {text : Text} {l : Layout} (h : Spells text l) :
    ofDirective? text = some l := by
  obtain ⟨⟨mark, group, integers, fraction, letter, rfl, hmark, hgroup, hintegers, hfraction,
    hletter⟩, hi, hf, hexact⟩ := h
  obtain ⟨hdigit, hpoint, hnoPrefix, hnoGroup⟩ := baseLetter_kind hletter
  obtain ⟨r, hr, hbase⟩ := Option.map_eq_some_iff.1 (Radix.map_ofLetter?_of_mem_letters hletter)
  -- From the last part to the first, no part goes on with what is in front of it.
  have hlast {P : Char → Prop} (hP : P letter) : ∀ c ∈ [letter].head?, P c := by
    rintro _ ⟨⟩
    exact hP
  have hpointHead {P : Char → Prop} (hP : P '.') : ∀ c ∈ fraction.head?, P c := by
    intro c hc
    rw [hfraction.head?_eq c hc]
    exact hP
  have hread₄ : readFractionWidth? (fraction ++ [letter]) = some (l.fraction, [letter]) :=
    hfraction.read_append hf (hlast hdigit) (hlast hpoint)
  have hread₃ : readIntegerWidth? (integers ++ (fraction ++ [letter])) =
      some (l.integers, fraction ++ [letter]) :=
    hintegers.read_append hi (forall_head?_append (hpointHead rfl) (hlast hdigit))
  have hread₂ : readGroup (group ++ (integers ++ (fraction ++ [letter]))) =
      (l.group, integers ++ (fraction ++ [letter])) :=
    hgroup.read_append (forall_head?_append (hintegers.head?_not_mem (by simp))
      (forall_head?_append (hpointHead (by simp)) (hlast hnoGroup)))
  have hread₁ : readShowRadix (mark ++ (group ++ (integers ++ (fraction ++ [letter])))) =
      (l.showRadix, group ++ (integers ++ (fraction ++ [letter]))) :=
    hmark.read_append (forall_head?_append hgroup.head?_not_prefix
      (forall_head?_append (hintegers.head?_not_mem (by simp))
        (forall_head?_append (hpointHead (by simp)) (hlast hnoPrefix))))
  simp only [ofDirective?, ofDirectiveBody?, hread₁, hread₂, hread₃, hread₄, hr, hbase]
  rw [if_pos ⟨hi, hf⟩, ← hexact]

/-- Reading accepts exactly the grammar, and reads what is denoted. -/
theorem ofDirective?_eq_some_iff {text : Text} {l : Layout} :
    ofDirective? text = some l ↔ Spells text l :=
  ⟨spells_of_ofDirective?, Spells.ofDirective?_eq⟩

/-- A directive spells layouts that can be met. -/
theorem exists_radix_of_ofDirective? {directive : Text} {l : Layout}
    (h : ofDirective? directive = some l) (exactDigits : Bool) :
    ∃ r, { l with exactDigits := exactDigits }.radix = .ok r := by
  obtain ⟨⟨_, _, _, _, letter, -, -, -, -, -, hletter⟩, hi, hf, -⟩ := spells_of_ofDirective? h
  obtain ⟨r, -, hbase⟩ := Option.map_eq_some_iff.1 (Radix.map_ofLetter?_of_mem_letters hletter)
  have hb : 2 ≤ l.base ∧ l.base ≤ 36 := hbase ▸ ⟨r.two_le, r.le_thirtySix⟩
  have hwidths : ¬(maxDigits < l.integers ∨ maxDigits < l.fraction) := by
    rw [maxDigits]
    omega
  exact ⟨_, radix_eq_ok (l := { l with exactDigits := exactDigits }) hb hwidths⟩

/-- A layout that can be met shows every number. -/
theorem exists_display {l : Layout} {r : Radix} (h : l.radix = .ok r) (x : Double) :
    ∃ text, l.display x = .ok text := by
  rw [display, h]
  exact ⟨_, rfl⟩

end RadixCalc.Layout

namespace RadixCalc

/-- A directive shows every number, in the layout that it spells. -/
theorem Locale.displayBy?_eq_none_iff {locale : Locale} {directive : Text} {x : Double} :
    locale.displayBy? directive x = none ↔ Layout.ofDirective? directive = none := by
  cases hl : Layout.ofDirective? directive with
  | none => simp [displayBy?, hl]
  | some l =>
    obtain ⟨r, hr⟩ := Layout.exists_radix_of_ofDirective? hl locale.exactDigits
    obtain ⟨text, htext⟩ := Layout.exists_display hr x
    refine iff_of_false ?_ nofun
    rw [displayBy?, hl]
    simp [display, htext, Except.toOption]

namespace Layout

/-- A text is read as a layout exactly where it is a directive that denotes the layout. All other
texts fail, and the failure quotes them. And a directive shows every number, finite or not, for
every reader. -/
theorem ofDirective_cases (text : Text) :
    (∀ l, ofDirective text = .ok l ↔ Spells text l) ∧
    (∀ e, ofDirective text = .error e ↔
      (∀ l, ¬Spells text l) ∧ e = .badLayout (.directive text)) ∧
    (∀ (locale : Locale) (x : Double),
      locale.displayBy? text x = none ↔ ∀ l, ¬Spells text l) := by
  have hnone : ofDirective? text = none ↔ ∀ l, ¬Spells text l := by
    rw [Option.eq_none_iff_forall_ne_some]
    exact forall_congr' fun l => not_congr ofDirective?_eq_some_iff
  refine ⟨?_, ?_, ?_⟩
  · intro l
    rw [← ofDirective?_eq_some_iff, ofDirective]
    cases ofDirective? text <;> simp
  · intro e
    rw [← hnone, ofDirective]
    cases ofDirective? text with
    | none => simp [eq_comm]
    | some l => simp
  · intro locale x
    rw [← hnone]
    exact Locale.displayBy?_eq_none_iff

example : ofDirective "%p_8.04B".toList = .ok ⟨2, 8, 4, 4, false, true⟩ := by decide

end Layout
end RadixCalc
