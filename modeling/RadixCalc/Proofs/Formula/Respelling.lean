import RadixCalc.Proofs.Formula.Lexemes

/-!
# Texts written anew

A formula means the same with its letters as capitals, and it begins with the same tokens whatever
stands behind it, as long as that goes on with none of them. Both are ways to write a text anew, and
the readers of tokens see neither: what they find in the old text they find in the new one, and what
they leave of the old text they leave, written anew. A reader may turn from one reading of a text to
another, as it does at a letter without a radix or at an exponent without figures; it does so in
both texts.

* `Respelling` is such a way, with what makes it harmless.
* `forall_toUpper` reduces a fact about a character and its capital to the twenty-six letters.
* `ReadsAlike` and `ReadsAlikeAt` say of a reader that it does not see the respelling, and
  `Numeral.readsAlike_read`, `Token.readsAlike_readNumber` and their companions show it.
* `Token.readsAlikeAt_read?` is the reading of one token, which may be anything but a variable.
-/

namespace RadixCalc

/-! ## Letters -/

/-- A character is its own capital, or it is one of the small letters. -/
theorem toUpper_cases (c : Char) :
    c.toUpper = c ∨ ∃ n < 26, c = Char.ofNat (97 + n) ∧ c.toUpper = Char.ofNat (65 + n) := by
  by_cases h : c.toNat - 97 < 26 ∧ 97 ≤ c.toNat
  · right
    obtain ⟨n, hn⟩ : ∃ n, c.toNat = 97 + n := Nat.exists_eq_add_of_le h.2
    have hcapitals : ∀ n < 26, (Char.ofNat (97 + n)).toUpper = Char.ofNat (65 + n) := by decide
    have hc : c = Char.ofNat (97 + n) := by rw [← hn, Char.ofNat_toNat]
    refine ⟨n, by omega, hc, ?_⟩
    rw [hc]
    apply hcapitals
    omega
  · left
    have hcodes : 'a'.val.toNat = 97 ∧ 'z'.val.toNat = 122 := by decide
    have hcode : c.val.toNat = c.toNat := rfl
    unfold Char.toUpper
    rw [dif_neg]
    simp only [UInt32.le_iff_toNat_le]
    omega

/-- What holds of every character and itself, and of the capitals and their small letters, holds of
the capital of every character and the character. -/
theorem forall_toUpper {P : Char → Char → Prop} (hself : ∀ c, P c c)
    (hletters : ∀ n < 26, P (Char.ofNat (65 + n)) (Char.ofNat (97 + n))) (c : Char) :
    P c.toUpper c := by
  rcases toUpper_cases c with h | ⟨n, hn, hc, hcapital⟩
  · rw [h]
    exact hself c
  · rw [hcapital, hc]
    exact hletters n hn

/-- A function that takes the same value on each capital and its small letter. -/
theorem apply_toUpper {α : Type} {f : Char → α}
    (h : ∀ n < 26, f (Char.ofNat (65 + n)) = f (Char.ofNat (97 + n))) (c : Char) :
    f c.toUpper = f c := by
  apply forall_toUpper (P := fun d c => f d = f c)
  · intro c
    rfl
  · exact h

/-- What is no letter is the capital of itself alone. -/
theorem toUpper_eq_iff {d : Char} (hd : d.isAlpha = false) (c : Char) : c.toUpper = d ↔ c = d := by
  apply forall_toUpper (P := fun u c => u = d ↔ c = d)
  · intro c
    exact Iff.rfl
  · intro n hn
    have hletters : ∀ n < 26, (Char.ofNat (65 + n)).isAlpha = true ∧
        (Char.ofNat (97 + n)).isAlpha = true := by decide
    obtain ⟨hcapital, hsmall⟩ := hletters n hn
    constructor
    · rintro rfl
      rw [hcapital] at hd
      cases hd
    · rintro rfl
      rw [hsmall] at hd
      cases hd

theorem isAlpha_of_isDigit {c : Char} (h : c.isDigit = true) : c.isAlpha = false := by
  have hcodes : '9'.val.toNat = 57 ∧ 'A'.val.toNat = 65 ∧ 'a'.val.toNat = 97 := by decide
  simp only [Char.isDigit, Bool.and_eq_true, decide_eq_true_eq, UInt32.le_iff_toNat_le] at h
  simp only [Char.isAlpha, Char.isUpper, Char.isLower, Bool.or_eq_false_iff,
    Bool.and_eq_false_iff, decide_eq_false_iff_not, UInt32.le_iff_toNat_le]
  omega

theorem isDigit_toUpper (c : Char) : c.toUpper.isDigit = c.isDigit := by
  apply apply_toUpper (f := Char.isDigit)
  decide

theorem toLower_toUpper (c : Char) : c.toUpper.toLower = c.toLower := by
  apply apply_toUpper (f := Char.toLower)
  decide

/-- A digit has the value of its capital, in whatever radix. -/
theorem digitValue?_toUpper (c : Char) : digitValue? c.toUpper = digitValue? c := by
  apply apply_toUpper
  decide

theorem isExponentLetter_toUpper (c : Char) :
    Numeral.IsExponentLetter c.toUpper ↔ Numeral.IsExponentLetter c := by
  apply forall_toUpper (P := fun d c => Numeral.IsExponentLetter d ↔ Numeral.IsExponentLetter c)
  · intro c
    exact Iff.rfl
  · unfold Numeral.IsExponentLetter
    decide

theorem Radix.digitValue?_toUpper (r : Radix) (c : Char) :
    r.digitValue? c.toUpper = r.digitValue? c := by
  rw [digitValue?, digitValue?, RadixCalc.digitValue?_toUpper]

theorem Radix.ofLetter?_toUpper (c : Char) : ofLetter? c.toUpper = ofLetter? c := by
  rw [ofLetter?, ofLetter?, toLower_toUpper]

theorem Token.isWordStart_toUpper (c : Char) : isWordStart c.toUpper = isWordStart c := by
  apply apply_toUpper
  decide

theorem Token.isWordChar_toUpper (c : Char) : isWordChar c.toUpper = isWordChar c := by
  apply apply_toUpper
  decide

/-! ## Respellings -/

/-- A way to write a text anew: its letters as they are or as capitals, and something behind it that
goes on with no number, with no word and with no operator. -/
structure Respelling where
  letter : Char → Char
  behind : Text
  letter_cases : ∀ c, letter c = c ∨ letter c = c.toUpper
  stops : ∀ c ∈ behind.head?, Token.isWordChar c = false ∧ c ∉ '.' :: '+' :: '-' :: Symbol.extenders

namespace Respelling

variable (w : Respelling)

/-- The text written anew. -/
def apply (text : Text) : Text :=
  text.map w.letter ++ w.behind

@[simp] theorem apply_nil : w.apply [] = w.behind := rfl

@[simp] theorem apply_cons (c : Char) (cs : Text) :
    w.apply (c :: cs) = w.letter c :: w.apply cs := rfl

/-! ### Characters -/

/-- A respelling changes no function of a character that capitals do not change. -/
theorem letter_congr {α : Type} {f : Char → α} (hf : ∀ c, f c.toUpper = f c) (c : Char) :
    f (w.letter c) = f c := by
  rcases w.letter_cases c with h | h
  · rw [h]
  · rw [h, hf]

/-- What is no letter comes from itself alone. -/
theorem letter_eq_iff {d : Char} (hd : d.isAlpha = false) (c : Char) : w.letter c = d ↔ c = d := by
  rcases w.letter_cases c with h | h
  · rw [h]
  · rw [h, toUpper_eq_iff hd]

theorem letter_eq_self {c : Char} (hc : c.isAlpha = false) : w.letter c = c :=
  (w.letter_eq_iff hc c).2 rfl

variable {w}

theorem isAlphanum_of_stops {c : Char} (hc : c ∈ w.behind.head?) : c.isAlphanum = false := by
  have hword := (w.stops c hc).1
  rw [Token.isWordChar, Bool.or_eq_false_iff] at hword
  exact hword.1

theorem isDigit_of_stops {c : Char} (hc : c ∈ w.behind.head?) : c.isDigit = false := by
  have halnum := isAlphanum_of_stops hc
  rw [Char.isAlphanum, Bool.or_eq_false_iff] at halnum
  exact halnum.2

theorem not_isExponentLetter_of_stops {c : Char} (hc : c ∈ w.behind.head?) :
    ¬Numeral.IsExponentLetter c := by
  have halnum := isAlphanum_of_stops hc
  rintro (rfl | rfl)
  · cases halnum
  · cases halnum

variable (w)

/-! ### Runs of characters -/

/-- A text without letters is kept. -/
theorem map_letter_eq_self {text : Text} (h : ∀ c ∈ text, c.isAlpha = false) :
    text.map w.letter = text := by
  have hself : ∀ c ∈ text, w.letter c = id c := by
    intro c hc
    exact w.letter_eq_self (h c hc)
  rw [List.map_congr_left hself, List.map_id]

section Runs

variable {p : Char → Bool} (hp : ∀ c, p c.toUpper = p c)
  (hstops : ∀ c ∈ w.behind.head?, p c = false)

include hp hstops

theorem forall_head?_apply {text : Text} (h : ∀ c ∈ text.head?, p c = false) :
    ∀ c ∈ (w.apply text).head?, p c = false := by
  cases text with
  | nil => exact hstops
  | cons c cs =>
    rintro _ ⟨⟩
    rw [w.letter_congr hp]
    exact h c rfl

/-- The longest run of characters of a kind ends where it ends in the text. -/
theorem span_apply (text : Text) :
    (w.apply text).takeWhile p = (text.takeWhile p).map w.letter ∧
      (w.apply text).dropWhile p = w.apply (text.dropWhile p) := by
  have hsplit : w.apply text = (text.takeWhile p).map w.letter ++ w.apply (text.dropWhile p) := by
    rw [apply, apply, ← List.append_assoc, ← List.map_append, List.takeWhile_append_dropWhile]
  have hrest : ∀ c ∈ (text.dropWhile p).head?, p c = false :=
    fun _ => Text.of_mem_head?_dropWhile
  rw [hsplit]
  apply Text.span_append
  · intro c hc
    obtain ⟨d, hd, rfl⟩ := List.mem_map.1 hc
    rw [w.letter_congr hp]
    exact List.mem_takeWhile_imp hd
  · exact w.forall_head?_apply hp hstops hrest

end Runs

theorem head?_apply_ne {d : Char} (hd : d.isAlpha = false) (hbehind : d ∉ w.behind.head?)
    {text : Text} (h : text.head? ≠ some d) : (w.apply text).head? ≠ some d := by
  cases text with
  | nil => exact hbehind
  | cons c cs =>
    rw [apply_cons, List.head?_cons, Ne, Option.some_inj, w.letter_eq_iff hd]
    simpa using h

theorem not_mem_behind {d : Char} (hd : d ∈ '.' :: '+' :: '-' :: Symbol.extenders) :
    d ∉ w.behind.head? :=
  fun hmem => (w.stops d hmem).2 hd

end Respelling

/-! ## Readers -/

section Readers

variable (w : Respelling)

/-- The reader finds in a text written anew what it finds in the text, and leaves anew what it
leaves. -/
def ReadsAlike {α : Type} (read : Text → α × Text) : Prop :=
  ∀ text, read (w.apply text) = ((read text).1, w.apply (read text).2)

/-- A reader that may find nothing finds nothing in the text written anew either. -/
def ReadsAlikeAt {α : Type} (read? : Text → Option (α × Text)) (text : Text) : Prop :=
  read? (w.apply text) = (read? text).map fun found => (found.1, w.apply found.2)

namespace Numeral

/-- Figures are written as they were, and none follow the end of the text. -/
theorem readsAlike_readFigures : ReadsAlike w readFigures := by
  intro text
  have hstops : ∀ c ∈ w.behind.head?, c.isDigit = false :=
    fun _ => Respelling.isDigit_of_stops
  have hfigures : ∀ c ∈ text.takeWhile Char.isDigit, c.isAlpha = false := by
    intro c hc
    exact isAlpha_of_isDigit (List.mem_takeWhile_imp hc)
  obtain ⟨htake, hdrop⟩ := w.span_apply isDigit_toUpper hstops text
  rw [readFigures, readFigures, htake, hdrop, w.map_letter_eq_self hfigures]

theorem readsAlike_readSign : ReadsAlike w readSign := by
  intro text
  by_cases hminus : text.head? = some '-'
  · obtain ⟨rest, rfl⟩ := List.head?_eq_some_iff.1 hminus
    rw [w.apply_cons, w.letter_eq_self rfl]
    rfl
  by_cases hplus : text.head? = some '+'
  · obtain ⟨rest, rfl⟩ := List.head?_eq_some_iff.1 hplus
    rw [w.apply_cons, w.letter_eq_self rfl]
    rfl
  rw [readSign_of_ne hminus hplus, readSign_of_ne]
  · exact w.head?_apply_ne rfl (w.not_mem_behind (by decide)) hminus
  · exact w.head?_apply_ne rfl (w.not_mem_behind (by decide)) hplus

theorem readsAlike_readFraction : ReadsAlike w readFraction := by
  intro text
  by_cases hpoint : text.head? = some '.'
  · obtain ⟨rest, rfl⟩ := List.head?_eq_some_iff.1 hpoint
    rw [w.apply_cons, w.letter_eq_self rfl]
    exact readsAlike_readFigures w rest
  · rw [readFraction_of_ne hpoint, readFraction_of_ne]
    exact w.head?_apply_ne rfl (w.not_mem_behind (by decide)) hpoint

/-- An exponent without figures is none in either text, and its letter is left in both. -/
theorem readsAlike_readExponent : ReadsAlike w readExponent := by
  intro text
  cases text with
  | nil => exact readExponent_of_not fun _ => Respelling.not_isExponentLetter_of_stops
  | cons c rest =>
    rw [w.apply_cons]
    have hsame : IsExponentLetter (w.letter c) ↔ IsExponentLetter c :=
      iff_of_eq (w.letter_congr (fun c => propext (isExponentLetter_toUpper c)) c)
    by_cases hletter : IsExponentLetter c
    · rw [readExponent_cons (hsame.2 hletter), readExponent_cons hletter, readExponentFigures_eq,
        readExponentFigures_eq, readsAlike_readSign w rest, readsAlike_readFigures w]
      -- Without figures the letter stays unread, in both texts.
      split
      · rfl
      · rfl
    · have hletter' := mt hsame.1 hletter
      rw [readExponent_of_not, readExponent_of_not]
      · rfl
      · rintro _ ⟨⟩
        exact hletter
      · rintro _ ⟨⟩
        exact hletter'

theorem readsAlike_read : ReadsAlike w read := by
  intro text
  simp only [read, readsAlike_readFigures w text, readsAlike_readFraction w _,
    readsAlike_readExponent w _]

end Numeral

namespace Token

theorem readDigits_of_head? {radix : Radix} {text : Text}
    (h : ∀ c ∈ text.head?, radix.digitValue? c = none) : readDigits radix text = ([], text) := by
  cases text with
  | nil => rfl
  | cons c cs => exact readDigits_of_none (h c rfl) cs

theorem readsAlike_readDigits (radix : Radix) : ReadsAlike w (readDigits radix) := by
  intro text
  induction text with
  | nil =>
    apply readDigits_of_head?
    intro c hc
    exact radix.digitValue?_of_not_isAlphanum (Respelling.isAlphanum_of_stops hc)
  | cons c cs ih =>
    have hvalue : radix.digitValue? (w.letter c) = radix.digitValue? c :=
      w.letter_congr radix.digitValue?_toUpper c
    rw [w.apply_cons]
    cases hdigit : radix.digitValue? c with
    | none =>
      rw [readDigits_of_none (hvalue.trans hdigit), readDigits_of_none hdigit, w.apply_cons]
    | some digit =>
      rw [readDigits_of_some (hvalue.trans hdigit), readDigits_of_some hdigit, ih]

theorem readPrefixed?_of_head? {text : Text} (h : text.head? ≠ some '0') :
    readPrefixed? text = none := by
  unfold readPrefixed?
  split
  · exact absurd rfl h
  · rfl

/-- Behind the prefix of no radix no number is read as one in a radix. -/
theorem readPrefixed?_zero {rest : Text} (h : ∀ c ∈ rest.head?, Radix.ofLetter? c = none) :
    readPrefixed? ('0' :: rest) = none := by
  cases rest with
  | nil => rfl
  | cons c cs => simp [readPrefixed?, h c rfl]

theorem readsAlikeAt_readPrefixed? (text : Text) : ReadsAlikeAt w readPrefixed? text := by
  unfold ReadsAlikeAt
  by_cases hzero : text.head? = some '0'
  · obtain ⟨rest, rfl⟩ := List.head?_eq_some_iff.1 hzero
    rw [w.apply_cons, w.letter_eq_self rfl]
    cases rest with
    | nil =>
      have hnone : ∀ c ∈ w.behind.head?, Radix.ofLetter? c = none :=
        fun _ hc => Radix.ofLetter?_of_not_isAlphanum (Respelling.isAlphanum_of_stops hc)
      rw [w.apply_nil, readPrefixed?_zero hnone]
      rfl
    | cons letter cs =>
      have hradix : Radix.ofLetter? (w.letter letter) = Radix.ofLetter? letter :=
        w.letter_congr Radix.ofLetter?_toUpper letter
      rw [w.apply_cons]
      cases hletter : Radix.ofLetter? letter with
      | none => simp [readPrefixed?, hradix, hletter]
      | some radix =>
        simp only [readPrefixed?, hradix, hletter, readsAlike_readDigits w radix cs]
        cases readDigits radix cs with
        | mk ds rest => cases ds <;> rfl
  · rw [readPrefixed?_of_head? hzero, readPrefixed?_of_head?]
    · rfl
    · refine w.head?_apply_ne rfl (fun hmem => ?_) hzero
      cases Respelling.isAlphanum_of_stops hmem

/-- A letter behind a first zero names the same radix in both texts, or none in either. -/
theorem readsAlike_readNumber : ReadsAlike w readNumber := by
  intro text
  have hprefixed : ReadsAlikeAt w readPrefixed? text := readsAlikeAt_readPrefixed? w text
  unfold ReadsAlikeAt at hprefixed
  cases hfound : readPrefixed? text with
  | some found =>
    rw [hfound] at hprefixed
    rw [readNumber_of_some hprefixed, readNumber_of_some hfound]
  | none =>
    rw [hfound] at hprefixed
    rw [readNumber_of_none hprefixed, readNumber_of_none hfound, Numeral.readsAlike_read w text]

theorem startsNumber_cons_of_ne {c : Char} (h : c ≠ '.') (cs : Text) :
    startsNumber (c :: cs) = c.isDigit := by
  unfold startsNumber
  split
  · next heq => exact absurd (List.cons.inj heq).1 h
  · next heq => rw [(List.cons.inj heq).1]
  · next heq => cases heq

theorem startsNumber_point (cs : Text) :
    startsNumber ('.' :: cs) = cs.head?.any Char.isDigit := by
  cases cs with
  | nil => rfl
  | cons c cs => rfl

theorem startsNumber_of_head? {text : Text}
    (h : ∀ c ∈ text.head?, c.isDigit = false ∧ c ≠ '.') : startsNumber text = false := by
  cases text with
  | nil => rfl
  | cons c cs => rw [startsNumber_cons_of_ne (h c rfl).2, (h c rfl).1]

/-- Where a number begins is decided by figures and a point, which a respelling leaves alone. -/
theorem startsNumber_apply (text : Text) : startsNumber (w.apply text) = startsNumber text := by
  cases text with
  | nil =>
    apply startsNumber_of_head?
    intro c hc
    refine ⟨Respelling.isDigit_of_stops hc, ?_⟩
    rintro rfl
    exact w.not_mem_behind (by decide) hc
  | cons c cs =>
    rw [w.apply_cons]
    by_cases hpoint : c = '.'
    · subst hpoint
      rw [w.letter_eq_self rfl, startsNumber_point, startsNumber_point]
      cases cs with
      | nil =>
        have hnone : w.behind.head?.any Char.isDigit = false := by
          rw [Option.any_eq_false]
          intro d hd
          simpa using Respelling.isDigit_of_stops hd
        exact hnone
      | cons d ds => exact w.letter_congr isDigit_toUpper d
    · rw [startsNumber_cons_of_ne (mt (w.letter_eq_iff rfl c).1 hpoint),
        startsNumber_cons_of_ne hpoint, w.letter_congr isDigit_toUpper]

/-- A word ends at the same place in both texts, and is read in small letters. -/
theorem readsAlike_readWord : ReadsAlike w readWord := by
  intro text
  have hstops : ∀ c ∈ w.behind.head?, isWordChar c = false := fun c hc => (w.stops c hc).1
  have hlower : Char.toLower ∘ w.letter = Char.toLower := funext (w.letter_congr toLower_toUpper)
  obtain ⟨htake, hdrop⟩ := w.span_apply isWordChar_toUpper hstops text
  rw [readWord, readWord, htake, hdrop, List.map_map, hlower]

end Token

/-! ### Symbols -/

namespace Text

theorem isPrefixOf?_cons (d c : Char) (front cs : Text) :
    (d :: front).isPrefixOf? (c :: cs) = if d = c then front.isPrefixOf? cs else none := by
  show (if d == c then front.isPrefixOf? cs else none) = _
  by_cases h : d = c
  · simp [h]
  · simp [h]

variable {w}

theorem isPrefixOf?_apply_cons {d : Char} {front : Text} (hd : d.isAlpha = false) (c : Char)
    {cs : Text} (h : front.isPrefixOf? (w.apply cs) = (front.isPrefixOf? cs).map w.apply) :
    (d :: front).isPrefixOf? (w.apply (c :: cs)) =
      ((d :: front).isPrefixOf? (c :: cs)).map w.apply := by
  have hiff : d = w.letter c ↔ d = c := by
    rw [eq_comm, w.letter_eq_iff hd, eq_comm]
  rw [w.apply_cons, isPrefixOf?_cons, isPrefixOf?_cons, h]
  by_cases hc : d = c
  · rw [if_pos (hiff.2 hc), if_pos hc]
  · rw [if_neg (mt hiff.1 hc), if_neg hc]
    rfl

/-- A piece without letters stands in front of a text written anew where it stands in front of the
text, if what is behind the text does not go on with it. -/
theorem isPrefixOf?_apply {front : Text} (h : ∀ d ∈ front, d.isAlpha = false ∧ d ∉ w.behind.head?)
    (text : Text) : front.isPrefixOf? (w.apply text) = (front.isPrefixOf? text).map w.apply := by
  induction front generalizing text with
  | nil => rfl
  | cons d front ih =>
    obtain ⟨⟨hd, hbehind⟩, hfront⟩ := List.forall_mem_cons.1 h
    cases text with
    | nil =>
      rw [w.apply_nil]
      cases hcs : w.behind with
      | nil => rfl
      | cons c cs =>
        have hne : d ≠ c := by
          rintro rfl
          exact hbehind (by rw [hcs]; rfl)
        rw [isPrefixOf?_cons, if_neg hne]
        rfl
    | cons c cs => exact isPrefixOf?_apply_cons hd c (ih hfront cs)

end Text

namespace Symbol

/-- A spelling has no letters, and behind its first mark only those with which longer spellings go
on. -/
theorem exists_cons_of_mem_spellings :
    ∀ entry ∈ spellings, ∃ d front, entry.1 = d :: front ∧ d.isAlpha = false ∧
      ∀ c ∈ front, c.isAlpha = false ∧ c ∈ extenders := by
  have hall : ∀ entry ∈ spellings, entry.1 ≠ [] ∧ (entry.1.all fun c => !c.isAlpha) = true ∧
      (entry.1.tail.all fun c => extenders.contains c) = true := by decide
  intro entry hentry
  obtain ⟨hne, halpha, htail⟩ := hall entry hentry
  obtain ⟨d, front, hsplit⟩ := List.exists_cons_of_ne_nil hne
  rw [hsplit] at halpha htail
  simp only [List.all_cons, Bool.and_eq_true, Bool.not_eq_true', List.all_eq_true, List.tail_cons,
    List.contains_iff_mem] at halpha htail
  exact ⟨d, front, hsplit, halpha.1, fun c hc => ⟨halpha.2 c hc, htail c hc⟩⟩

theorem readsAlikeAt_read? (c : Char) (cs : Text) : ReadsAlikeAt w read? (c :: cs) := by
  unfold ReadsAlikeAt read?
  rw [List.map_findSome?]
  have hspellings := exists_cons_of_mem_spellings
  generalize spellings = entries at hspellings ⊢
  induction entries with
  | nil => rfl
  | cons entry entries ih =>
    obtain ⟨hentry, hentries⟩ := List.forall_mem_cons.1 hspellings
    obtain ⟨d, front, hsplit, hd, hfront⟩ := hentry
    have hrest : ∀ d ∈ front, d.isAlpha = false ∧ d ∉ w.behind.head? := by
      intro d hd
      refine ⟨(hfront d hd).1, w.not_mem_behind ?_⟩
      simp [(hfront d hd).2]
    have hprefix := Text.isPrefixOf?_apply_cons hd c (Text.isPrefixOf?_apply hrest cs)
    rw [← hsplit] at hprefix
    simp only [List.findSome?_cons, Function.comp, hprefix, ih hentries]
    cases entry.1.isPrefixOf? (c :: cs) <;> rfl

end Symbol

namespace Token

/-- A token that begins with no brace is read alike. -/
theorem readsAlikeAt_read? {c : Char} (hbrace : c ≠ '\x7b') (cs : Text) :
    ReadsAlikeAt w read? (c :: cs) := by
  have hbrace' : w.letter c ≠ '\x7b' := mt (w.letter_eq_iff rfl c).1 hbrace
  have hnumber' := startsNumber_apply w (c :: cs)
  have hword' : isWordStart (w.letter c) = isWordStart c := w.letter_congr isWordStart_toUpper c
  unfold ReadsAlikeAt
  rw [w.apply_cons] at hnumber' ⊢
  cases hnumber : startsNumber (c :: cs) with
  | true =>
    rw [read?_of_number hbrace' (hnumber'.trans hnumber), read?_of_number hbrace hnumber,
      ← w.apply_cons, readsAlike_readNumber w]
    rfl
  | false =>
    cases hword : isWordStart c with
    | true =>
      rw [read?_of_word hbrace' (hnumber'.trans hnumber) (hword'.trans hword),
        read?_of_word hbrace hnumber hword, ← w.apply_cons, readsAlike_readWord w]
      rfl
    | false =>
      have hsymbol : ReadsAlikeAt w Symbol.read? (c :: cs) := Symbol.readsAlikeAt_read? w c cs
      unfold ReadsAlikeAt at hsymbol
      rw [read?_of_symbol hbrace' (hnumber'.trans hnumber) (hword'.trans hword),
        read?_of_symbol hbrace hnumber hword, ← w.apply_cons, hsymbol, Option.map_map,
        Option.map_map]
      rfl

end Token

end Readers

end RadixCalc
