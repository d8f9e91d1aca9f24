import RadixCalc.Formula.Eval
import RadixCalc.Proofs.Formula.Respelling

/-!
# Formulas in capitals

Outside the names of variables a formula may be written in small letters or in capitals. Letters
occur there in names of functions, in the prefix of a radix, among the digits behind it and in front
of an exponent, and each of these is read in either case. What is shown of a text that cannot be
read has no letters, unless it begins with a brace.

* `Respelling.capitals` is a text in capitals; its tokens are read alike.
* `Token.illegalExcerpt_capitals` is about what is shown of a text that cannot be read.
* `Token.ofText_map_toUpper` is the reading of a whole text, in which no brace may stand.
* `Formula.ofText_capitals` adds what is made of the tokens: the tree, the value, the failure.
-/

namespace RadixCalc

namespace Respelling

/-- Every letter as a capital. -/
def capitals : Respelling where
  letter := Char.toUpper
  behind := []
  letter_cases _ := .inr rfl
  stops := by
    intro c hc
    cases hc

/-- Nothing stands behind the capitals. -/
theorem capitals_stops {p : Char → Bool} : ∀ c ∈ capitals.behind.head?, p c = false := by
  intro c hc
  cases hc

theorem apply_capitals (text : Text) : capitals.apply text = text.map Char.toUpper :=
  List.append_nil _

end Respelling

open Respelling (capitals capitals_stops apply_capitals)

/-! ## Blanks -/

theorem isBlank_toUpper (c : Char) : Text.isBlank c.toUpper = Text.isBlank c := by
  apply apply_toUpper
  decide

theorem Text.trim_map_toUpper (text : Text) :
    trim (text.map Char.toUpper) = text.trim.map Char.toUpper := by
  have hdrop : ∀ text : Text, (text.map Char.toUpper).dropWhile isBlank =
      (text.dropWhile isBlank).map Char.toUpper := by
    intro text
    have hspan := (capitals.span_apply isBlank_toUpper capitals_stops text).2
    rwa [apply_capitals, apply_capitals] at hspan
  rw [trim, trim, hdrop, ← List.map_reverse, hdrop, List.map_reverse]

theorem Text.mem_of_mem_trim {c : Char} {text : Text} (h : c ∈ text.trim) : c ∈ text := by
  rw [trim, List.mem_reverse] at h
  have hback := (List.dropWhile_suffix isBlank).subset h
  rw [List.mem_reverse] at hback
  exact (List.dropWhile_suffix isBlank).subset hback

namespace Token

/-! ## Illegal text -/

theorem isForeign_toUpper (c : Char) : isForeign c.toUpper = isForeign c := by
  have hletters : ∀ n < 26, (Char.ofNat (65 + n)).isAlphanum = true ∧
      (Char.ofNat (97 + n)).isAlphanum = true := by decide
  apply apply_toUpper
  intro n hn
  simp [isForeign, hletters n hn]

theorem isAlpha_of_isForeign {c : Char} (h : isForeign c = true) : c.isAlpha = false := by
  simp only [isForeign, Char.isAlphanum, Bool.not_eq_true', Bool.or_eq_false_iff] at h
  exact h.1.2.1

/-- No letter stands where no token begins. -/
theorem isAlpha_of_read?_eq_none {c : Char} {cs : Text} (hbrace : c ≠ '\x7b')
    (h : read? (c :: cs) = none) : c.isAlpha = false := by
  by_contra hletter
  rw [Bool.not_eq_false] at hletter
  have hword : isWordStart c = true := by rw [isWordStart, hletter, Bool.true_or]
  cases hnumber : startsNumber (c :: cs) with
  | true =>
    rw [read?_of_number hbrace hnumber] at h
    cases h
  | false =>
    rw [read?_of_word hbrace hnumber hword] at h
    cases h

/-- What is shown of an illegal text has no letters, unless it begins with a brace. -/
theorem illegalExcerpt_capitals {c : Char} {cs : Text} (hbrace : c ≠ '\x7b')
    (h : read? (c :: cs) = none) :
    illegalExcerpt (capitals.apply (c :: cs)) = illegalExcerpt (c :: cs) := by
  have hself : capitals.letter c = c :=
    capitals.letter_eq_self (isAlpha_of_read?_eq_none hbrace h)
  have hforeign : ∀ d ∈ cs.takeWhile isForeign, d.isAlpha = false := by
    intro d hd
    exact isAlpha_of_isForeign (List.mem_takeWhile_imp hd)
  rw [capitals.apply_cons, hself, illegalExcerpt, illegalExcerpt, if_neg hbrace, if_neg hbrace,
    (capitals.span_apply isForeign_toUpper capitals_stops cs).1,
    capitals.map_letter_eq_self hforeign]

/-! ## Whole texts -/

theorem ofTextFrom_capitals (before : List Token) {text : Text} (h : '\x7b' ∉ text) :
    ofTextFrom before (capitals.apply text) = ofTextFrom before text := by
  fun_induction ofTextFrom before text with
  | case1 before => exact ofTextFrom_nil before
  | case2 before c cs hblank ih =>
    have hsame := capitals.letter_congr isBlank_toUpper c
    rw [capitals.apply_cons, ofTextFrom_blank (hsame.trans hblank)]
    apply ih
    intro hmem
    exact h (List.mem_cons_of_mem _ hmem)
  | case3 before c cs hblank t rest hread hlt ih =>
    rw [Bool.not_eq_true] at hblank
    have hbrace : c ≠ '\x7b' := fun hc => h (hc ▸ List.mem_cons_self)
    have hsame := capitals.letter_congr isBlank_toUpper c
    have halike := readsAlikeAt_read? capitals hbrace cs
    rw [ReadsAlikeAt, hread, capitals.apply_cons] at halike
    rw [capitals.apply_cons, ofTextFrom_cons (hsame.trans hblank) halike]
    apply ih
    intro hmem
    obtain ⟨lexeme, hsplit, -⟩ := readsOff_read? hread
    rw [hsplit] at h
    exact h (List.mem_append_right _ hmem)
  | case4 before c cs hblank hread =>
    rw [Bool.not_eq_true] at hblank
    have hbrace : c ≠ '\x7b' := fun hc => h (hc ▸ List.mem_cons_self)
    have hsame := capitals.letter_congr isBlank_toUpper c
    have halike := readsAlikeAt_read? capitals hbrace cs
    have hexcerpt := illegalExcerpt_capitals hbrace hread
    rw [ReadsAlikeAt, hread, capitals.apply_cons] at halike
    rw [capitals.apply_cons] at hexcerpt ⊢
    rw [ofTextFrom_of_none (hsame.trans hblank) halike, hexcerpt]

/-- The capitals of a text without a brace have the tokens of the text, or fail as it does. -/
theorem ofText_map_toUpper {text : Text} (h : '\x7b' ∉ text) :
    ofText (text.map Char.toUpper) = ofText text := by
  rw [← apply_capitals]
  exact ofTextFrom_capitals [] h

end Token

/-! ## Whole formulas -/

namespace Formula

/-- A text without a brace and its capitals have the same tokens, are the same formula and have the
same value for all values of variables; or they fail alike. -/
theorem ofText_capitals {text : Text} (h : '\x7b' ∉ text) :
    Token.ofText (text.map Char.toUpper) = Token.ofText text ∧
      ofText (text.map Char.toUpper) = ofText text ∧
      check (text.map Char.toUpper) = check text ∧
      ∀ env, valueOfText env (text.map Char.toUpper) = valueOfText env text := by
  have hread : ∀ {text : Text}, '\x7b' ∉ text → ofText (text.map Char.toUpper) = ofText text := by
    intro text h
    rw [ofText, ofText, Token.ofText_map_toUpper h]
  have htrim : ofText (Text.trim (text.map Char.toUpper)) = ofText text.trim := by
    rw [Text.trim_map_toUpper]
    exact hread (mt Text.mem_of_mem_trim h)
  refine ⟨Token.ofText_map_toUpper h, hread h, ?_, ?_⟩
  · rw [check, check, htrim]
  · intro env
    rw [valueOfText, valueOfText, htrim]

/-- A number in base 16 and one with an exponent, a function, and an exponent without figures, which
is a word. -/
theorem ofText_capitals_mixed :
    '\x7b' ∉ " 0xfF - Sin(2e1) + 1e".toList ∧
      Token.ofText " 0XFF - SIN(2E1) + 1E".toList =
        .ok [.number (.ofNat 255), .symbol .minus, .word "sin".toList, .symbol .openParen,
          .number (.ofNat 20), .symbol .closeParen, .symbol .plus, .number .one, .word ['e']] ∧
      Formula.ofText " 0XFF - SIN(2E1) + 1E".toList =
        Formula.ofText " 0xfF - Sin(2e1) + 1e".toList := by
  have hbrace : '\x7b' ∉ " 0xfF - Sin(2e1) + 1e".toList := by decide +kernel
  have hcapitals : " 0xfF - Sin(2e1) + 1e".toList.map Char.toUpper =
      " 0XFF - SIN(2E1) + 1E".toList := by decide +kernel
  have htokens : Token.ofText " 0xfF - Sin(2e1) + 1e".toList =
      .ok [.number (.ofNat 255), .symbol .minus, .word "sin".toList, .symbol .openParen,
        .number (.ofNat 20), .symbol .closeParen, .symbol .plus, .number .one, .word ['e']] := by
    decide +kernel
  obtain ⟨hsame, hread, -⟩ := ofText_capitals hbrace
  rw [hcapitals] at hsame hread
  exact ⟨hbrace, hsame.trans htokens, hread⟩

end Formula

end RadixCalc
