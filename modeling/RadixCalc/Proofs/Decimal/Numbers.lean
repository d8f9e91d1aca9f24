import RadixCalc.Proofs.Decimal.Restored
import RadixCalc.Proofs.Double.Correct

/-!
# The texts of numbers

A number is written in decimal figures: an optional sign, figures with an optional point among them
or in front of them, and an optional exponent. No other text is a number, in particular none with a
prefix, with marks between its figures, with an exponent that breaks off, or with a word for what is
no number. The double that a number is read as is its value, correctly rounded.

* `NumberSign`, `Mantissa` and `ExponentMark` are the parts, and `IsNumber` is a whole text with
  blanks around it. None of them mentions a reader.
* Of each part one lemma says that the reader takes it off the text, and one that what the reader
  took is such a part.
* `Double.reads_number_iff` puts the two directions together.
-/

namespace RadixCalc

/-! ## The parts of a number -/

/-- A sign or none, and whether it is a minus. -/
inductive NumberSign : Text → Bool → Prop
  | absent : NumberSign [] false
  | plus : NumberSign ['+'] false
  | minus : NumberSign ['-'] true

/-- Figures with an optional point and optional further figures, or a point followed by figures, and
the value of the figures. -/
inductive Mantissa : Text → ℚ → Prop
  | whole {whole : Text} (hne : whole ≠ []) (hwhole : ∀ c ∈ whole, c.isDigit = true) :
    Mantissa whole (figuresValue whole [])
  | point {whole fraction : Text} (hne : whole ≠ []) (hwhole : ∀ c ∈ whole, c.isDigit = true)
    (hfraction : ∀ c ∈ fraction, c.isDigit = true) :
    Mantissa (whole ++ '.' :: fraction) (figuresValue whole fraction)
  | fraction {fraction : Text} (hne : fraction ≠ [])
    (hfraction : ∀ c ∈ fraction, c.isDigit = true) :
    Mantissa ('.' :: fraction) (figuresValue [] fraction)

/-- An exponent or none: its letter, an optional sign and at least one figure. -/
inductive ExponentMark : Text → ℤ → Prop
  | absent : ExponentMark [] 0
  | written {letter : Char} {sign figures : Text} {negative : Bool}
    (hletter : letter = 'e' ∨ letter = 'E') (hsign : NumberSign sign negative)
    (hne : figures ≠ []) (hfigures : ∀ c ∈ figures, c.isDigit = true) :
    ExponentMark (letter :: (sign ++ figures))
      (if negative then -(valueOfFigures figures : ℤ) else valueOfFigures figures)

/-- The text is a number with blanks around it: it denotes the magnitude under the sign. -/
def IsNumber (text : Text) (negative : Bool) (magnitude : ℚ) : Prop :=
  ∃ sign mantissa exponent value power, text.trim = sign ++ (mantissa ++ exponent) ∧
    NumberSign sign negative ∧ Mantissa mantissa value ∧ ExponentMark exponent power ∧
    magnitude = value * 10 ^ power

/-- The text is a number. -/
def IsNumeric (text : Text) : Prop :=
  ∃ negative magnitude, IsNumber text negative magnitude

/-! ## Signs -/

theorem NumberSign.readSign_append {sign rest : Text} {negative : Bool}
    (h : NumberSign sign negative) (hminus : rest.head? ≠ some '-')
    (hplus : rest.head? ≠ some '+') :
    Numeral.readSign (sign ++ rest) = (negative, rest) := by
  cases h with
  | absent => exact Numeral.readSign_of_ne hminus hplus
  | plus => rfl
  | minus => rfl

theorem exists_numberSign (text : Text) :
    ∃ sign, text = sign ++ (Numeral.readSign text).2 ∧
      NumberSign sign (Numeral.readSign text).1 := by
  by_cases hminus : text.head? = some '-'
  · obtain ⟨rest, rfl⟩ := List.head?_eq_some_iff.1 hminus
    exact ⟨['-'], rfl, .minus⟩
  by_cases hplus : text.head? = some '+'
  · obtain ⟨rest, rfl⟩ := List.head?_eq_some_iff.1 hplus
    exact ⟨['+'], rfl, .plus⟩
  rw [Numeral.readSign_of_ne hminus hplus]
  exact ⟨[], rfl, .absent⟩

/-! ## Exponents -/

/-- Behind a sign there are figures, which are no sign. -/
theorem head?_ne_of_isDigit {figures : Text} (hfigures : ∀ c ∈ figures, c.isDigit = true)
    {d : Char} (hd : d.isDigit = false) : figures.head? ≠ some d := by
  intro h
  have hdigit := hfigures d (List.mem_of_head? h)
  rw [hd] at hdigit
  cases hdigit

theorem ExponentMark.readExponent_eq {text : Text} {power : ℤ} (h : ExponentMark text power) :
    Numeral.readExponent text = (power, []) := by
  cases h with
  | absent => rfl
  | @written letter sign figures negative hletter hsign hne hfigures =>
    have hread : Numeral.readSign (sign ++ figures) = (negative, figures) :=
      hsign.readSign_append (head?_ne_of_isDigit hfigures rfl) (head?_ne_of_isDigit hfigures rfl)
    have hrun : Numeral.readFigures (figures ++ []) = (figures, []) :=
      Numeral.readFigures_append hfigures nofun
    rw [List.append_nil] at hrun
    rw [Numeral.readExponent_cons hletter, Numeral.readExponentFigures_eq, hread, hrun,
      if_neg hne, Numeral.exponentOf]

theorem ExponentMark.head? {text : Text} {power : ℤ} (h : ExponentMark text power) :
    ∀ c ∈ text.head?, c = 'e' ∨ c = 'E' := by
  cases h with
  | absent => exact nofun
  | written hletter _ _ _ =>
    rintro _ ⟨⟩
    exact hletter

theorem exponentMark_of_readExponent {text : Text} {power : ℤ}
    (h : Numeral.readExponent text = (power, [])) : ExponentMark text power := by
  cases text with
  | nil =>
    cases h
    exact .absent
  | cons c rest =>
    by_cases hletter : Numeral.IsExponentLetter c
    · rw [Numeral.readExponent_cons hletter, Numeral.readExponentFigures_eq] at h
      split at h
      · -- Without figures the letter is left.
        cases h
      · next hne =>
        obtain ⟨sign, hrest, hsign⟩ := exists_numberSign rest
        have hfigures := Numeral.readFigures_append_rest (Numeral.readSign rest).2
        obtain ⟨hpower, hbehind⟩ := Prod.mk.inj h
        rw [hbehind, List.append_nil] at hfigures
        rw [hrest, ← hfigures, ← hpower]
        exact .written hletter hsign hne Numeral.isDigit_of_mem_readFigures
    · rw [Numeral.readExponent_of_not] at h
      · cases h
      · rintro _ ⟨⟩
        exact hletter

/-! ## Mantissas -/

/-- The reader finds the figures of a mantissa before and behind the point. -/
theorem Mantissa.exists_read_append {mantissa rest : Text} {value : ℚ}
    (h : Mantissa mantissa value) (hrest : ∀ c ∈ rest.head?, c = 'e' ∨ c = 'E') :
    ∃ whole fraction behind, Numeral.readFigures (mantissa ++ rest) = (whole, behind) ∧
      Numeral.readFraction behind = (fraction, rest) ∧ (whole ≠ [] ∨ fraction ≠ []) ∧
      value = figuresValue whole fraction := by
  have hdigit : ∀ c ∈ rest.head?, c.isDigit = false := by
    intro c hc
    rcases hrest c hc with rfl | rfl
    · rfl
    · rfl
  have hpoint : rest.head? ≠ some '.' := by
    intro hhead
    have hletter := hrest '.' hhead
    simp at hletter
  cases h with
  | whole hne hwhole =>
    exact ⟨mantissa, [], rest, Numeral.readFigures_append hwhole hdigit,
      Numeral.readFraction_of_ne hpoint, .inl hne, rfl⟩
  | @point whole fraction hne hwhole hfraction =>
    refine ⟨whole, fraction, '.' :: (fraction ++ rest), ?_, ?_, .inl hne, rfl⟩
    · rw [List.append_assoc]
      exact Numeral.readFigures_append hwhole (by rintro _ ⟨⟩; rfl)
    · exact Numeral.readFigures_append hfraction hdigit
  | @fraction fraction hne hfraction =>
    refine ⟨[], fraction, '.' :: (fraction ++ rest), ?_, ?_, .inr hne, rfl⟩
    · have hnone : ∀ c ∈ ([] : Text), c.isDigit = true := nofun
      exact Numeral.readFigures_append hnone (by rintro _ ⟨⟩; rfl)
    · exact Numeral.readFigures_append hfraction hdigit

theorem Mantissa.head?_ne {mantissa rest : Text} {value : ℚ} (h : Mantissa mantissa value)
    {d : Char} (hd : d.isDigit = false) (hpoint : d ≠ '.') :
    (mantissa ++ rest).head? ≠ some d := by
  cases h with
  | whole hne hwhole =>
    rw [List.head?_append_of_ne_nil _ hne]
    exact head?_ne_of_isDigit hwhole hd
  | point hne hwhole _ =>
    rw [List.append_assoc, List.head?_append_of_ne_nil _ hne]
    exact head?_ne_of_isDigit hwhole hd
  | fraction =>
    rintro ⟨⟩
    exact hpoint rfl

theorem exists_mantissa {text : Text} {whole fraction behind rest : Text}
    (hwhole : Numeral.readFigures text = (whole, behind))
    (hfraction : Numeral.readFraction behind = (fraction, rest))
    (hfigure : whole ≠ [] ∨ fraction ≠ []) :
    ∃ mantissa, text = mantissa ++ rest ∧ Mantissa mantissa (figuresValue whole fraction) := by
  have hsplit := Numeral.readFigures_append_rest text
  have hdigits : ∀ c ∈ (Numeral.readFigures text).1, c.isDigit = true :=
    Numeral.isDigit_of_mem_readFigures
  rw [hwhole] at hsplit hdigits
  by_cases hpoint : behind.head? = some '.'
  · obtain ⟨cs, rfl⟩ := List.head?_eq_some_iff.1 hpoint
    have hread : Numeral.readFigures cs = (fraction, rest) := hfraction
    have hcs := Numeral.readFigures_append_rest cs
    have hfigures : ∀ c ∈ (Numeral.readFigures cs).1, c.isDigit = true :=
      Numeral.isDigit_of_mem_readFigures
    rw [hread] at hcs hfigures
    refine ⟨whole ++ '.' :: fraction, ?_, ?_⟩
    · rw [← hsplit, ← hcs, List.append_assoc]
      rfl
    · by_cases hne : whole = []
      · subst hne
        exact .fraction (hfigure.resolve_left (not_not_intro rfl)) hfigures
      · exact .point hne hdigits hfigures
  · rw [Numeral.readFraction_of_ne hpoint] at hfraction
    obtain ⟨rfl, rfl⟩ := Prod.mk.inj hfraction
    exact ⟨whole, hsplit.symm, .whole (hfigure.resolve_right (not_not_intro rfl)) hdigits⟩

theorem Mantissa.nonneg {mantissa : Text} {value : ℚ} (h : Mantissa mantissa value) :
    0 ≤ value := by
  cases h with
  | whole => exact div_nonneg (Nat.cast_nonneg _) (by positivity)
  | point => exact div_nonneg (Nat.cast_nonneg _) (by positivity)
  | fraction => exact div_nonneg (Nat.cast_nonneg _) (by positivity)

/-! ## Whole texts -/

theorem IsNumber.nonneg {text : Text} {negative : Bool} {magnitude : ℚ}
    (h : IsNumber text negative magnitude) : 0 ≤ magnitude := by
  obtain ⟨_, _, _, value, power, -, -, hmantissa, -, rfl⟩ := h
  exact mul_nonneg hmantissa.nonneg (zpow_nonneg (by norm_num) power)

theorem Numeral.hasFigure_iff (n : Numeral) :
    n.hasFigure = true ↔ n.whole ≠ [] ∨ n.fraction ≠ [] := by
  rw [hasFigure, Bool.not_eq_true', Bool.and_eq_false_iff, ← Bool.not_eq_true, ← Bool.not_eq_true,
    List.isEmpty_iff, List.isEmpty_iff]

namespace Double

/-- A number is read, and as a numeral of its magnitude. -/
theorem exists_ofText?_of_isNumber {text : Text} {negative : Bool} {magnitude : ℚ}
    (h : IsNumber text negative magnitude) :
    ∃ n : Numeral, ofText? text = some (n.toDouble negative) ∧ n.decimal.toRat = magnitude := by
  obtain ⟨sign, mantissa, exponent, value, power, htext, hsign, hmantissa, hexponent, rfl⟩ := h
  obtain ⟨whole, fraction, behind, hwhole, hfraction, hfigure, rfl⟩ :=
    hmantissa.exists_read_append hexponent.head?
  have hread : Numeral.read (mantissa ++ exponent) = (⟨whole, fraction, power⟩, []) := by
    simp only [Numeral.read, hwhole, hfraction, hexponent.readExponent_eq]
  have hsigned : Numeral.readSign text.trim = (negative, mantissa ++ exponent) := by
    rw [htext]
    exact hsign.readSign_append (hmantissa.head?_ne rfl (by decide))
      (hmantissa.head?_ne rfl (by decide))
  refine ⟨⟨whole, fraction, power⟩, ?_, Numeral.toRat_decimal _⟩
  rw [ofText?, hsigned]
  simp only [hread]
  rw [if_pos ((Numeral.hasFigure_iff _).2 hfigure)]

/-- What is read is a number, and its magnitude is that of the numeral. -/
theorem exists_isNumber_of_ofText? {text : Text} {x : Double} (h : ofText? text = some x) :
    ∃ (negative : Bool) (n : Numeral), IsNumber text negative n.decimal.toRat ∧
      x = n.toDouble negative := by
  obtain ⟨sign, htext, hsign⟩ := exists_numberSign text.trim
  rw [ofText?] at h
  simp only at h
  split at h
  · next n hread =>
    split at h
    · next hfigure =>
      cases h
      refine ⟨_, n, ?_, rfl⟩
      obtain ⟨hn, hrest⟩ := Prod.mk.inj hread
      subst hn
      obtain ⟨mantissa, hsplit, hmantissa⟩ :=
        exists_mantissa rfl rfl ((Numeral.hasFigure_iff _).1 hfigure)
      refine ⟨sign, mantissa, _, _, _, ?_, hsign, hmantissa,
        exponentMark_of_readExponent (Prod.ext rfl hrest), Numeral.toRat_decimal _⟩
      rw [← hsplit, ← htext]
    · cases h
  · cases h

/-- A text is read as a double exactly when it is a number whose value, correctly rounded, is that
double. -/
theorem reads_number_iff {text : Text} {x : Double} :
    ofText? text = some x ↔
      ∃ negative magnitude, IsNumber text negative magnitude ∧ IsRounded negative magnitude x := by
  constructor
  · intro h
    obtain ⟨negative, n, hnumber, rfl⟩ := exists_isNumber_of_ofText? h
    exact ⟨negative, _, hnumber, isRounded_ofDecimal negative n.decimal⟩
  · rintro ⟨negative, magnitude, hnumber, hrounded⟩
    obtain ⟨n, hread, rfl⟩ := exists_ofText?_of_isNumber hnumber
    have hsame := (isRounded_ofDecimal negative n.decimal).unique hnumber.nonneg hrounded
    rw [hread, n.toDouble_eq, hsame]

theorem reads_none_iff {text : Text} : ofText? text = none ↔ ¬IsNumeric text := by
  constructor
  · rintro h ⟨negative, magnitude, hnumber⟩
    obtain ⟨n, hread, -⟩ := exists_ofText?_of_isNumber hnumber
    rw [h] at hread
    cases hread
  · intro h
    cases hread : ofText? text with
    | none => rfl
    | some x =>
      obtain ⟨negative, n, hnumber, -⟩ := exists_isNumber_of_ofText? hread
      exact absurd ⟨negative, _, hnumber⟩ h

end Double

end RadixCalc
