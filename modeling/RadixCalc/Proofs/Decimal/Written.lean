import RadixCalc.Proofs.Decimal.PlainDisplay

/-!
# How a rounded value is written

The plain display of a number is its value rounded to fourteen significant digits, written in one of
two ways. Which of them is taken depends on where the first digit of the rounded value stands, and
neither shows a zero that could be left out.

* `IsPositional` and `IsScientific` say what a text of either kind looks like and which value it
  shows; no text is of both kinds (`IsPositional.not_isScientific`).
* `Decimal.isPositional_positional` and `Double.isScientific_simpleExponentText` are the two ways of
  writing.
* `Locale.simpleText_rounded` is the plain display of every number but zero.
-/

namespace RadixCalc

/-! ## Figures around a point -/

/-- The value of figures before and behind a point. -/
def figuresValue (whole fraction : Text) : ℚ :=
  valueOfFigures (whole ++ fraction) / 10 ^ fraction.length

/-- Zeros at the end of a fraction change no value. -/
theorem figuresValue_append_zeros (whole fraction : Text) (zeros : ℕ) :
    figuresValue whole (fraction ++ List.replicate zeros '0') = figuresValue whole fraction := by
  have hzeros : (10 : ℚ) ^ zeros ≠ 0 := pow_ne_zero _ (by norm_num)
  rw [figuresValue, figuresValue, ← List.append_assoc, valueOfFigures_append_zeros,
    List.length_append, List.length_replicate, pow_add, Nat.cast_mul, Nat.cast_pow, Nat.cast_ofNat,
    mul_div_mul_right _ _ hzeros]

theorem Decimal.figuresValue_dropTrailingZeros (whole fraction : Text) :
    figuresValue whole (dropTrailingZeros fraction) = figuresValue whole fraction := by
  obtain ⟨zeros, hzeros⟩ := exists_dropTrailingZeros fraction
  conv_rhs => rw [hzeros, figuresValue_append_zeros]

/-- A numeral begins with 0 only where it is the numeral of zero. -/
theorem numeral_of_head? {n : ℕ} (h : (numeral 10 n).head? = some '0') : numeral 10 n = ['0'] := by
  by_cases hn : n = 0
  · rw [hn, numeral, digits, lowDigits_of_lt (by decide)]
    rfl
  · obtain ⟨first, rest, hnumeral, hfirst⟩ := exists_numeral_cons hn
    rw [hnumeral] at h
    exact absurd (Option.some.inj h) hfirst

/-- Zeros stand in front of a numeral only where it has no figure before the point. -/
theorem Decimal.head?_splitPlaces {places n : ℕ} {whole fraction : Text}
    (h : splitPlaces places (numeral 10 n) = (whole, fraction)) (hhead : whole.head? = some '0') :
    whole = ['0'] := by
  rw [splitPlaces, List.splitAt_eq] at h
  obtain ⟨rfl, -⟩ := Prod.mk.inj h
  by_cases hlen : (numeral 10 n).length ≤ places + 1
  · have hone : (padZeros (places + 1) (numeral 10 n)).length - places = 1 := by
      rw [padZeros, List.length_append, List.length_replicate]
      omega
    rw [hone] at hhead ⊢
    obtain ⟨rest, hwhole⟩ := List.head?_eq_some_iff.1 hhead
    have hlength := congrArg List.length hwhole
    rw [List.length_take, List.length_cons] at hlength
    obtain rfl := List.eq_nil_of_length_eq_zero (by omega : rest.length = 0)
    exact hwhole
  · have hnone : padZeros (places + 1) (numeral 10 n) = numeral 10 n := by
      rw [padZeros, Nat.sub_eq_zero_of_le (by omega)]
      rfl
    rw [hnone, List.head?_take, if_neg (by omega)] at hhead
    rw [numeral_of_head? hhead, List.length_singleton] at hlen
    omega

/-! ## The two kinds of texts -/

/-- The text shows the value with every digit in its place: figures, the first of which is 0 only
where it is alone, and if there is a fraction a point and the figures of the fraction, the last of
which is not 0. -/
def IsPositional (text : Text) (v : ℚ) : Prop :=
  ∃ whole fraction : Text,
    text = (if fraction = [] then whole else whole ++ '.' :: fraction) ∧
    whole ≠ [] ∧ (∀ c ∈ whole ++ fraction, c.isDigit = true) ∧
    (whole.head? = some '0' → whole = ['0']) ∧ fraction.getLast? ≠ some '0' ∧
    v = figuresValue whole fraction

/-- The text shows the value with an exponent: one figure that is not 0, a point and at least one
figure behind it, the last of which is 0 only where it is alone, and a power of ten with its sign.
-/
def IsScientific (text : Text) (v : ℚ) : Prop :=
  ∃ (first : Char) (fraction : Text) (exponent : ℤ),
    text = first :: '.' :: fraction ++
      'E' :: (if exponent < 0 then '-' else '+') :: numeral 10 exponent.natAbs ∧
    (∀ c ∈ first :: fraction, c.isDigit = true) ∧ first ≠ '0' ∧ fraction ≠ [] ∧
    (fraction.getLast? = some '0' → fraction = ['0']) ∧
    v = figuresValue [first] fraction * 10 ^ exponent

/-- Only a text with an exponent has its letter. -/
theorem IsPositional.not_isScientific {text : Text} {v w : ℚ} (h : IsPositional text v) :
    ¬IsScientific text w := by
  rintro ⟨first, fraction', exponent, htext, -⟩
  obtain ⟨whole, fraction, rfl, -, hdigits, -⟩ := h
  have hletter : 'E' ∈ if fraction = [] then whole else whole ++ '.' :: fraction := by
    rw [htext]
    simp
  have hfigure : 'E' ∈ whole ++ fraction := by
    split at hletter
    · exact List.mem_append_left _ hletter
    · simpa using hletter
  exact absurd (hdigits 'E' hfigure) (by decide)

/-- A text that shows a value begins with a figure. -/
theorem IsPositional.exists_cons {text : Text} {v : ℚ} (h : IsPositional text v) :
    ∃ c cs, text = c :: cs ∧ c.isDigit = true := by
  obtain ⟨whole, fraction, rfl, hne, hdigits, -⟩ := h
  obtain ⟨c, cs, rfl⟩ := List.exists_cons_of_ne_nil hne
  refine ⟨c, if fraction = [] then cs else cs ++ '.' :: fraction, ?_, hdigits c (by simp)⟩
  split <;> rfl

theorem IsScientific.exists_cons {text : Text} {v : ℚ} (h : IsScientific text v) :
    ∃ c cs, text = c :: cs ∧ c.isDigit = true := by
  obtain ⟨first, fraction, exponent, rfl, hdigits, -⟩ := h
  exact ⟨first, _, rfl, hdigits first (by simp)⟩

/-! ## The two ways of writing -/

namespace Decimal

theorem isPositional_positional (d : Decimal) : IsPositional d.positional d.toRat := by
  by_cases hexponent : 0 ≤ d.exponent
  · refine ⟨d.positional, [], (if_pos rfl).symm, ?_⟩
    obtain ⟨places, hplaces⟩ := Int.eq_ofNat_of_zero_le hexponent
    rw [positional, if_pos hexponent, List.append_nil]
    refine ⟨numeral_ne_nil _, fun c hc => isDigit_of_mem_numeral hc, numeral_of_head?, by simp, ?_⟩
    rw [figuresValue, List.append_nil, valueOfFigures_numeral, toRat, hplaces]
    simp
  · obtain ⟨places, hplaces⟩ : ∃ places : ℕ, d.exponent = -places :=
      ⟨(-d.exponent).toNat, by omega⟩
    obtain ⟨whole, fraction, hsplit, hne, hlen, hdigits, hvalue⟩ :=
      splitPlaces_eq places d.coefficient
    refine ⟨whole, dropTrailingZeros fraction, ?_, hne, ?_, head?_splitPlaces hsplit,
      getLast?_dropTrailingZeros _, ?_⟩
    · rw [positional, if_neg hexponent, hplaces, neg_neg, Int.toNat_natCast, hsplit]
      simp only [joinPoint, List.isEmpty_iff]
    · refine List.forall_mem_append.2 ⟨fun c hc => hdigits c (List.mem_append_left _ hc), ?_⟩
      exact fun c hc => hdigits c (List.mem_append_right _ (mem_of_mem_dropTrailingZeros hc))
    · rw [figuresValue_dropTrailingZeros, figuresValue, hvalue, hlen, toRat_of_places hplaces]

end Decimal

/-- A decimal whose figures stand around a point, and its value. -/
theorem Decimal.toRat_eq_figuresValue {d : Decimal} {first : Char} {behind : Text}
    (h : numeral 10 d.coefficient = first :: behind) :
    d.toRat = figuresValue [first] behind * 10 ^ d.leadingExponent := by
  have hlength : (digits 10 d.coefficient).length = behind.length + 1 := by
    have hnumeral : (numeral 10 d.coefficient).length = (digits 10 d.coefficient).length :=
      List.length_map _
    rw [← hnumeral, h, List.length_cons]
  have hleading : d.leadingExponent = d.exponent + behind.length := by
    rw [leadingExponent, hlength]
    push_cast
    ring
  rw [figuresValue, List.singleton_append, ← h, valueOfFigures_numeral, hleading, toRat,
    zpow_add₀ (by norm_num), zpow_natCast]
  field_simp

/-- The figures of a number that is not zero, behind the first of them a point. -/
theorem Double.isScientific_simpleExponentText {d : Decimal} (hd : d.coefficient ≠ 0) :
    IsScientific (simpleExponentText d) d.toRat := by
  obtain ⟨first, rest, zeros, hfigures, hfirst, hlast, hnumeral⟩ := Decimal.exists_figures hd
  have hvalue : figuresValue [first] (if rest = [] then ['0'] else rest) =
      figuresValue [first] rest := by
    split
    · next hnil =>
      rw [hnil]
      exact figuresValue_append_zeros [first] [] 1
    · rfl
  have hdigits : ∀ c ∈ first :: rest, c.isDigit = true := by
    intro c hc
    apply isDigit_of_mem_numeral (n := d.coefficient)
    rw [hnumeral]
    exact List.mem_append_left (List.replicate zeros '0') hc
  refine ⟨first, if rest = [] then ['0'] else rest, d.leadingExponent, ?_, ?_, hfirst, ?_, ?_, ?_⟩
  · simp only [simpleExponentText, exponentText, hfigures, List.isEmpty_iff]
    rfl
  · rw [List.forall_mem_cons] at hdigits ⊢
    refine ⟨hdigits.1, ?_⟩
    split
    · exact List.forall_mem_singleton.2 rfl
    · exact hdigits.2
  · split
    · exact List.cons_ne_nil _ _
    · assumption
  · intro h
    split
    · rfl
    · next hne =>
      rw [if_neg hne] at h
      exact absurd h hlast
  · rw [Decimal.toRat_eq_figuresValue hnumeral, figuresValue_append_zeros, hvalue]

/-! ## The plain display -/

namespace Double

/-- The value is written positionally: its first digit stands between the thirteenth place before
the units and the fourth decimal. -/
def WrittenPositionally (v : ℚ) : Prop :=
  -4 ≤ Int.log 10 v ∧ Int.log 10 v ≤ 13

section PlainText

variable {d : Decimal} (hd : d.coefficient ≠ 0)

include hd

theorem isPositional_plainText (h : WrittenPositionally d.toRat) :
    IsPositional (plainText d) d.toRat := by
  have hplace := Decimal.leadingExponent_eq_log hd
  have hbounds : simpleLowest ≤ d.leadingExponent ∧ d.leadingExponent < simpleDigits := by
    rw [simpleLowest, simpleDigits, hplace]
    exact ⟨h.1, Int.lt_add_one_of_le h.2⟩
  rw [plainText, if_pos hbounds]
  exact d.isPositional_positional

theorem isScientific_plainText (h : ¬WrittenPositionally d.toRat) :
    IsScientific (plainText d) d.toRat := by
  have hplace := Decimal.leadingExponent_eq_log hd
  have hbounds : ¬(simpleLowest ≤ d.leadingExponent ∧ d.leadingExponent < simpleDigits) := by
    rw [simpleLowest, simpleDigits, hplace]
    exact fun hin => h ⟨hin.1, Int.le_of_lt_add_one hin.2⟩
  rw [plainText, if_neg hbounds]
  exact isScientific_simpleExponentText hd

/-- Which of the two ways is taken can be seen. -/
theorem plainText_kind :
    (IsPositional (plainText d) d.toRat ↔ WrittenPositionally d.toRat) ∧
    (IsScientific (plainText d) d.toRat ↔ ¬WrittenPositionally d.toRat) := by
  by_cases h : WrittenPositionally d.toRat
  · have hpositional := isPositional_plainText hd h
    exact ⟨iff_of_true hpositional h, iff_of_false hpositional.not_isScientific (not_not.2 h)⟩
  · have hscientific := isScientific_plainText hd h
    exact ⟨iff_of_false (fun hpositional => hpositional.not_isScientific hscientific) h,
      iff_of_true hscientific h⟩

theorem plainText_shows :
    IsPositional (plainText d) d.toRat ∨ IsScientific (plainText d) d.toRat := by
  by_cases h : WrittenPositionally d.toRat
  · exact .inl (isPositional_plainText hd h)
  · exact .inr (isScientific_plainText hd h)

/-- It begins with a figure, so a sign in front can be told. -/
theorem exists_plainText_cons : ∃ c cs, plainText d = c :: cs ∧ c.isDigit = true :=
  (plainText_shows hd).elim (·.exists_cons) (·.exists_cons)

theorem head?_signText_plainText (negative : Bool) :
    (signText negative (plainText d)).head? = some '-' ↔ negative = true := by
  obtain ⟨c, cs, htext, hdigit⟩ := exists_plainText_cons hd
  cases negative with
  | true => exact iff_of_true rfl rfl
  | false =>
    refine iff_of_false ?_ Bool.false_ne_true
    rw [signText, if_neg Bool.false_ne_true, htext, List.head?_cons, Option.some_inj]
    rintro rfl
    cases hdigit

end PlainText

end Double

/-- The plain display of a number that is not zero is its value rounded to fourteen significant
digits, under its sign; it is written positionally where the first digit of the rounded value counts
a power of ten from -4 to 13, and otherwise with an exponent. -/
theorem Locale.simpleText_rounded {l : Locale} (hpoint : l.point = '.') {x : Double} {q : ℚ}
    (hx : x.toRat? = some q) (hq : q ≠ 0) :
    ∃ unsigned v, l.simpleText x = Double.signText (decide (q < 0)) unsigned ∧
      ((l.simpleText x).head? = some '-' ↔ q < 0) ∧
      Decimal.RoundsTo 14 |q| v ∧
      (IsPositional unsigned v ↔ -4 ≤ Int.log 10 v ∧ Int.log 10 v ≤ 13) ∧
      (IsScientific unsigned v ↔ ¬(-4 ≤ Int.log 10 v ∧ Int.log 10 v ≤ 13)) := by
  obtain ⟨negative, rank, rfl, rfl⟩ := Double.exists_finite_of_toRat? hx
  have hunits : Double.unitsOfRank rank ≠ 0 := by
    intro hzero
    apply hq
    rw [← abs_eq_zero, Double.abs_signed_div, hzero, Nat.cast_zero, zero_div]
  have hneg := (Double.signed_div_neg_iff negative (Double.unitsOfRank rank)).trans
    (and_iff_left hunits)
  have hdecide : decide ((Double.signed negative (Double.unitsOfRank rank) : ℚ) /
      (Double.unitsPerOne : ℚ) < 0) = negative := by
    rw [Bool.eq_iff_iff, decide_eq_true_iff]
    exact hneg
  have hcount : 0 < Double.simpleDigits := by decide
  have hdigits := Decimal.hasDigits_significant hunits hcount
  rw [simpleText_of_point hpoint, hdecide,
    Double.simpleText_finite negative (Double.rank_ne_zero hunits)]
  refine ⟨_, _, rfl, ?_, ?_, Double.plainText_kind hdigits.coefficient_ne_zero⟩
  · rw [hneg]
    exact Double.head?_signText_plainText hdigits.coefficient_ne_zero negative
  · rw [Double.abs_signed_div]
    exact Decimal.roundsTo_significant hunits hcount

/-- Half way between two numbers of fourteen digits the even one is shown. -/
theorem Locale.simpleText_rounded_tie :
    standard.simpleText (.ofBits 0xC2A2309CE5400500) = "-10000000000002".toList ∧
    ∃ v, Decimal.RoundsTo 14 |(-20000000000005 / 2 : ℚ)| v ∧
      (IsPositional "10000000000002".toList v ↔ -4 ≤ Int.log 10 v ∧ Int.log 10 v ≤ 13) := by
  have hvalue : (Double.ofBits 0xC2A2309CE5400500).toRat? = some (-20000000000005 / 2) := by
    decide +kernel
  have htext : standard.simpleText (.ofBits 0xC2A2309CE5400500) = "-10000000000002".toList := by
    decide +kernel
  obtain ⟨unsigned, v, hsigned, -, hrounds, hpositional, -⟩ :=
    simpleText_rounded (l := standard) rfl hvalue (by norm_num)
  have hunsigned : unsigned = "10000000000002".toList := by
    rw [htext, decide_eq_true (by norm_num)] at hsigned
    exact (List.cons.inj hsigned).2.symm
  exact ⟨htext, v, hrounds, hunsigned ▸ hpositional⟩

end RadixCalc
