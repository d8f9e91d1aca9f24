import RadixCalc.Proofs.Decimal.Rerounded
import RadixCalc.Proofs.Decimal.Written
import RadixCalc.Proofs.Formula.Lexing

/-!
# A plain display is restored

A plain display is a numeral, with or without an exponent, so it can be read. What is read is the
double closest to the value shown, which need not be the double that was displayed; but it is
displayed in the same way.

* `IsPositional.exists_read` and `IsScientific.exists_read` read the two kinds of texts.
* `Double.exists_ofText?_signText` puts a sign in front of them.
* `Locale.ofText?_simpleText` says that the display of what is read is the text that was read.
-/

namespace RadixCalc

/-! ## Reading the two kinds of texts -/

namespace Numeral

/-- The value of a numeral, as a decimal. -/
def decimal (n : Numeral) : Decimal :=
  ⟨valueOfFigures (n.whole ++ n.fraction), n.exponent - n.fraction.length⟩

theorem toDouble_eq (n : Numeral) (negative : Bool) :
    n.toDouble negative = Double.ofDecimal negative n.decimal.coefficient n.decimal.exponent := rfl

theorem toRat_decimal (n : Numeral) :
    n.decimal.toRat = figuresValue n.whole n.fraction * 10 ^ n.exponent := by
  rw [decimal, Decimal.toRat, figuresValue, zpow_sub₀ (by norm_num), zpow_natCast]
  ring

theorem hasFigure_of_ne_nil {n : Numeral} (h : n.whole ≠ []) : n.hasFigure = true := by
  simp [hasFigure, h]

theorem exponentOf_numeral (exponent : ℤ) :
    exponentOf (decide (exponent < 0)) (numeral 10 exponent.natAbs) = exponent := by
  rw [exponentOf, valueOfFigures_numeral]
  by_cases h : exponent < 0
  · rw [if_pos (decide_eq_true h)]
    omega
  · rw [if_neg (by simpa using h)]
    omega

/-- An exponent with its sign is read to its end. -/
theorem readExponent_numeral (exponent : ℤ) :
    readExponent ('E' :: (if exponent < 0 then '-' else '+') :: numeral 10 exponent.natAbs) =
      (exponent, []) := by
  have hsign : readSign ((if exponent < 0 then '-' else '+') :: numeral 10 exponent.natAbs) =
      (decide (exponent < 0), numeral 10 exponent.natAbs) := by
    by_cases h : exponent < 0
    · rw [if_pos h, decide_eq_true h]
      rfl
    · rw [if_neg h, decide_eq_false h]
      rfl
  have hfigures : readFigures (numeral 10 exponent.natAbs) = (numeral 10 exponent.natAbs, []) := by
    have happend : readFigures (numeral 10 exponent.natAbs ++ []) =
        (numeral 10 exponent.natAbs, []) :=
      readFigures_append (fun c hc => isDigit_of_mem_numeral hc) nofun
    rwa [List.append_nil] at happend
  rw [readExponent_cons (.inr rfl), readExponentFigures_eq, hsign, hfigures,
    if_neg (numeral_ne_nil _), exponentOf_numeral]

end Numeral

theorem IsPositional.exists_read {text : Text} {v : ℚ} (h : IsPositional text v) :
    ∃ n : Numeral, Numeral.read text = (n, []) ∧ n.hasFigure = true ∧ n.decimal.toRat = v := by
  obtain ⟨whole, fraction, htext, hne, hdigits, -, -, hvalue⟩ := h
  have hread := Token.read_joinPoint hdigits Token.endsNumber_nil
  have hjoin : Decimal.joinPoint whole fraction = text := by
    rw [htext]
    simp only [Decimal.joinPoint, List.isEmpty_iff]
  rw [List.append_nil, hjoin] at hread
  refine ⟨_, hread, Numeral.hasFigure_of_ne_nil hne, ?_⟩
  rw [Numeral.toRat_decimal, zpow_zero, mul_one, hvalue]

theorem IsScientific.exists_read {text : Text} {v : ℚ} (h : IsScientific text v) :
    ∃ n : Numeral, Numeral.read text = (n, []) ∧ n.hasFigure = true ∧ n.decimal.toRat = v := by
  obtain ⟨first, fraction, exponent, rfl, hdigits, -, -, -, hvalue⟩ := h
  obtain ⟨hfirst, hfraction⟩ := List.forall_mem_cons.1 hdigits
  refine ⟨⟨[first], fraction, exponent⟩, ?_, Numeral.hasFigure_of_ne_nil (List.cons_ne_nil _ _),
    by rw [Numeral.toRat_decimal, hvalue]⟩
  have hwhole (rest : Text) :
      Numeral.readFigures (first :: '.' :: rest) = ([first], '.' :: rest) :=
    Numeral.readFigures_append (List.forall_mem_singleton.2 hfirst) (by rintro _ ⟨⟩; rfl)
  have hbehind (rest : Text) :
      Numeral.readFraction ('.' :: (fraction ++ 'E' :: rest)) = (fraction, 'E' :: rest) :=
    Numeral.readFigures_append hfraction (by rintro _ ⟨⟩; rfl)
  rw [List.cons_append, List.cons_append, Numeral.read, hwhole]
  simp only [hbehind, Numeral.readExponent_numeral]

/-! ## No blanks at the ends -/

theorem isBlank_of_isDigit {c : Char} (h : c.isDigit = true) : Text.isBlank c = false :=
  isBlank_of_isAlphanum (isAlphanum_of_isDigit h)

theorem IsPositional.isBlank {text : Text} {v : ℚ} (h : IsPositional text v) :
    ∀ c ∈ text, Text.isBlank c = false := by
  obtain ⟨whole, fraction, rfl, -, hdigits, -⟩ := h
  obtain ⟨hwhole, hfraction⟩ := List.forall_mem_append.1 hdigits
  split
  · exact fun c hc => isBlank_of_isDigit (hwhole c hc)
  · refine List.forall_mem_append.2 ⟨fun c hc => isBlank_of_isDigit (hwhole c hc), ?_⟩
    exact List.forall_mem_cons.2 ⟨by decide, fun c hc => isBlank_of_isDigit (hfraction c hc)⟩

theorem IsScientific.isBlank {text : Text} {v : ℚ} (h : IsScientific text v) :
    ∀ c ∈ text, Text.isBlank c = false := by
  obtain ⟨first, fraction, exponent, rfl, hdigits, -⟩ := h
  obtain ⟨hfirst, hfraction⟩ := List.forall_mem_cons.1 hdigits
  simp only [List.cons_append, List.forall_mem_cons, List.forall_mem_append]
  refine ⟨isBlank_of_isDigit hfirst, by decide, fun c hc => isBlank_of_isDigit (hfraction c hc),
    by decide, ?_, fun c hc => isBlank_of_isDigit (isDigit_of_mem_numeral hc)⟩
  split <;> decide

theorem Text.trim_of_forall {text : Text} (h : ∀ c ∈ text, isBlank c = false) :
    text.trim = text := by
  have hkeeps {text : Text} (h : ∀ c ∈ text, isBlank c = false) :
      text.dropWhile isBlank = text := by
    cases text with
    | nil => rfl
    | cons c cs => exact List.dropWhile_cons_of_neg (by simp [h c List.mem_cons_self])
  have hback : ∀ c ∈ text.reverse, isBlank c = false :=
    fun c hc => h c (List.mem_reverse.1 hc)
  rw [trim, hkeeps h, hkeeps hback, List.reverse_reverse]

/-! ## Reading a display -/

namespace Double

/-- A text of either kind is read under a sign as the decimal that it shows. -/
theorem exists_ofText?_signText {text : Text} {v : ℚ}
    (h : IsPositional text v ∨ IsScientific text v) (negative : Bool) :
    ∃ d : Decimal, d.toRat = v ∧
      ofText? (signText negative text) = some (ofDecimal negative d.coefficient d.exponent) := by
  have hblank : ∀ c ∈ text, Text.isBlank c = false := h.elim (·.isBlank) (·.isBlank)
  obtain ⟨c, cs, rfl, hc⟩ : ∃ c cs, text = c :: cs ∧ c.isDigit = true :=
    h.elim (·.exists_cons) (·.exists_cons)
  obtain ⟨n, hread, hfigure, hvalue⟩ : ∃ n : Numeral, Numeral.read (c :: cs) = (n, []) ∧
      n.hasFigure = true ∧ n.decimal.toRat = v := h.elim (·.exists_read) (·.exists_read)
  have hsigned : ∀ d ∈ signText negative (c :: cs), Text.isBlank d = false := by
    cases negative with
    | true => exact List.forall_mem_cons.2 ⟨by decide, hblank⟩
    | false => exact hblank
  refine ⟨n.decimal, hvalue, ?_⟩
  rw [ofText?, Text.trim_of_forall hsigned, readSign_signText negative hc]
  simp only [hread]
  rw [if_pos hfigure, n.toDouble_eq]

/-! ## Display, reading, display -/

theorem ofText?_zero : ofText? ['0'] = some (zero false) := by
  decide +kernel

/-- The plain display of a magnitude that is not zero is read as another one that has the same plain
display. -/
theorem exists_ofText?_simpleText (negative : Bool) {rank : Fin rankCount} (h : rank.val ≠ 0) :
    ∃ restored : Fin rankCount,
      ofText? (simpleText (finite negative rank)) = some (finite negative restored) ∧
      simpleText (finite negative restored) = simpleText (finite negative rank) := by
  have hunits := unitsOfRank_ne_zero h
  have hcount : 0 < simpleDigits := by decide
  have hdigits := Decimal.hasDigits_significant hunits hcount
  have hfinite := roundsTo_le_greatest (div_unitsPerOne_pos hunits)
    (div_unitsPerOne_le_greatest rank) (Decimal.roundsTo_significant hunits hcount)
  obtain ⟨d, hvalue, hread⟩ := exists_ofText?_signText
    (plainText_shows hdigits.coefficient_ne_zero) negative
  have hcoefficient : d.coefficient ≠ 0 := by
    intro hzero
    have hpos := Decimal.toRat_pos hdigits.coefficient_ne_zero
    rw [← hvalue, Decimal.toRat, hzero, Nat.cast_zero, zero_mul] at hpos
    exact lt_irrefl _ hpos
  rw [simpleDigits] at hvalue
  rw [← hvalue] at hfinite
  obtain ⟨restored, hrestored, hclosest⟩ := exists_ofDecimal_closest hcoefficient hfinite negative
  rw [hvalue] at hclosest
  obtain ⟨hne, hsame⟩ := significant_of_isClosest hunits hclosest
  refine ⟨restored, ?_, ?_⟩
  · rw [simpleText_finite negative h, hread, hrestored]
  · rw [simpleText_finite negative h, simpleText_finite negative (rank_ne_zero hne)]
    exact congrArg (fun d => signText negative (plainText d)) hsame

end Double

/-- The plain display of a finite number with a point before its fraction is read as a finite number
again, and that number has the same plain display. -/
theorem Locale.ofText?_simpleText {l : Locale} (hpoint : l.point = '.') {x : Double}
    (hx : x.isFinite = true) :
    ∃ y, Double.ofText? (l.simpleText x) = some y ∧ y.isFinite = true ∧
      l.simpleText y = l.simpleText x := by
  simp only [simpleText_of_point hpoint]
  cases x with
  | nan => cases hx
  | infinity negative => cases hx
  | finite negative rank =>
    by_cases hzero : rank.val = 0
    · have htext : Double.simpleText (.finite negative rank) = ['0'] := if_pos hzero
      rw [htext]
      exact ⟨_, Double.ofText?_zero, rfl, rfl⟩
    · obtain ⟨restored, hread, hsame⟩ := Double.exists_ofText?_simpleText negative hzero
      exact ⟨_, hread, rfl, hsame⟩

/-- The sum of 0.1 and 0.2 is displayed as 0.3; what is read from this is another number, but it is
displayed in the same way. -/
theorem Locale.ofText?_simpleText_tenths :
    standard.simpleText (.ofBits 0x3FD3333333333334) = "0.3".toList ∧
    Double.ofText? "0.3".toList = some (.ofBits 0x3FD3333333333333) ∧
    standard.simpleText (.ofBits 0x3FD3333333333333) = "0.3".toList := by
  have htext : standard.simpleText (.ofBits 0x3FD3333333333334) = "0.3".toList := by
    decide +kernel
  have hvalue : Double.ofText? "0.3".toList = some (.ofBits 0x3FD3333333333333) := by
    decide +kernel
  obtain ⟨y, hread, -, hsame⟩ := ofText?_simpleText (l := standard) rfl
    (by decide +kernel : (Double.ofBits 0x3FD3333333333334).isFinite = true)
  rw [htext] at hread hsame
  obtain rfl := Option.some.inj (hvalue.symm.trans hread)
  exact ⟨htext, hvalue, hsame⟩

end RadixCalc
