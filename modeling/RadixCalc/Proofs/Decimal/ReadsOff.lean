import Mathlib
import RadixCalc.Decimal.Numeral

/-!
# What a reader takes off a text

A reader takes something off the front of a text and leaves the rest. It may look further than it
takes: behind figures it looks for more of them, behind an `e` for a sign and figures. This file
says when the cut is nevertheless clean, so that what is taken off is taken off in the same way
wherever the text breaks off behind it, in particular where nothing follows at all.

* `ReadsOff` says this of one reader and one text. `ReadsOff.map` and `ReadsOff.followedBy` build
  readers from others.
* `Text.readsOff_span` is the case of the longest run of characters of a kind.
* `Numeral.readsOff_read` is the case of numerals, with their fractions and exponents.
-/

namespace RadixCalc

/-! ## Clean cuts -/

/-- The reader takes a lexeme off the text and leaves the rest; and if only a front of that rest
follows the lexeme, the outcome is the same with that front left. -/
def ReadsOff {α : Type} (read : Text → α) (outcome : Text → α) (text rest : Text) : Prop :=
  ∃ lexeme, text = lexeme ++ rest ∧ ∀ front, front <+: rest → read (lexeme ++ front) = outcome front

namespace ReadsOff

variable {α β : Type} {text rest rest' : Text}

/-- What reads off nothing finds the same on every front of the text. -/
theorem on_front {read : Text → α} {outcome : Text → α} (h : ReadsOff read outcome text text)
    {front : Text} (hfront : front <+: text) : read front = outcome front := by
  obtain ⟨lexeme, hsplit, hread⟩ := h
  obtain rfl : lexeme = [] := List.self_eq_append_left.1 hsplit
  exact hread front hfront

theorem map {read : Text → α} {outcome : Text → α} (g : α → β)
    (h : ReadsOff read outcome text rest) :
    ReadsOff (fun text => g (read text)) (fun front => g (outcome front)) text rest := by
  obtain ⟨lexeme, hsplit, hread⟩ := h
  refine ⟨lexeme, hsplit, ?_⟩
  intro front hfront
  exact congrArg g (hread front hfront)

/-- Two readers, the second where the first stops. -/
theorem followedBy {first : Text → α × Text} {a : α} {second : Text → β} {outcome : Text → β}
    (h : ReadsOff first (fun front => (a, front)) text rest)
    (h' : ReadsOff second outcome rest rest') :
    ReadsOff (fun text => ((first text).1, second (first text).2)) (fun front => (a, outcome front))
      text rest' := by
  obtain ⟨lexeme, rfl, hread⟩ := h
  obtain ⟨lexeme', rfl, hread'⟩ := h'
  refine ⟨lexeme ++ lexeme', (List.append_assoc _ _ _).symm, ?_⟩
  intro front hfront
  have hfirst := hread (lexeme' ++ front) ((List.prefix_append_right_inj _).2 hfront)
  have hsecond := hread' front hfront
  simp only [List.append_assoc, hfirst, hsecond]

/-- A reader that takes something off begins with the first character. -/
theorem exists_cons {read : Text → α} {outcome : Text → α} {c : Char} {cs : Text}
    (h : ReadsOff read outcome (c :: cs) rest) (hlt : rest.length < (c :: cs).length) :
    ∃ lexeme, cs = lexeme ++ rest ∧ ∀ front, front <+: rest →
      c :: (lexeme ++ front) <+: c :: cs ∧ read (c :: (lexeme ++ front)) = outcome front := by
  obtain ⟨lexeme, hsplit, hread⟩ := h
  cases lexeme with
  | nil =>
    rw [hsplit, List.nil_append] at hlt
    exact absurd hlt (lt_irrefl _)
  | cons d lexeme =>
    obtain ⟨rfl, rfl⟩ := List.cons.inj hsplit
    refine ⟨lexeme, rfl, ?_⟩
    intro front hfront
    exact ⟨(List.prefix_append_right_inj (c :: lexeme)).2 hfront, hread front hfront⟩

end ReadsOff

namespace Text

/-- Characters of a kind in front of a character of another kind are the longest run. -/
theorem span_append {p : Char → Bool} {run rest : Text} (hrun : ∀ c ∈ run, p c = true)
    (hrest : ∀ c ∈ rest.head?, p c = false) :
    (run ++ rest).takeWhile p = run ∧ (run ++ rest).dropWhile p = rest := by
  have hstop : rest.takeWhile p = [] ∧ rest.dropWhile p = rest := by
    cases rest with
    | nil => exact ⟨rfl, rfl⟩
    | cons c cs =>
      have hc := hrest c rfl
      simp [hc]
  rw [List.takeWhile_append_of_pos hrun, List.dropWhile_append_of_pos hrun, hstop.1, hstop.2,
    List.append_nil]
  exact ⟨rfl, rfl⟩

theorem mem_head?_of_front {front rest : Text} (h : front <+: rest) {c : Char}
    (hc : c ∈ front.head?) : c ∈ rest.head? := by
  obtain ⟨back, rfl⟩ := h
  cases front with
  | nil => cases hc
  | cons d ds => exact hc

/-- What stands behind the longest run of a kind of characters is of another kind. -/
theorem of_mem_head?_dropWhile {p : Char → Bool} {text : Text} {c : Char}
    (hc : c ∈ (text.dropWhile p).head?) : p c = false := by
  have hhead := List.head?_dropWhile_not p text
  rw [hc] at hhead
  simpa using hhead

/-- The longest run of a kind of characters is cut off cleanly. -/
theorem readsOff_span (p : Char → Bool) (text : Text) :
    ReadsOff (fun text => (text.takeWhile p, text.dropWhile p))
      (fun front => (text.takeWhile p, front)) text (text.dropWhile p) := by
  refine ⟨text.takeWhile p, List.takeWhile_append_dropWhile.symm, ?_⟩
  intro front hfront
  have hrun : ∀ c ∈ text.takeWhile p, p c = true := fun c hc => List.mem_takeWhile_imp hc
  have hstop : ∀ c ∈ front.head?, p c = false := by
    intro c hc
    exact of_mem_head?_dropWhile (mem_head?_of_front hfront hc)
  obtain ⟨htake, hdrop⟩ := span_append hrun hstop
  exact Prod.ext htake hdrop

end Text

/-! ## Numerals -/

namespace Numeral

theorem readsOff_readFigures (text : Text) :
    ReadsOff readFigures (fun front => ((readFigures text).1, front)) text (readFigures text).2 :=
  Text.readsOff_span Char.isDigit text

theorem readFigures_append {figures rest : Text} (hfigures : ∀ c ∈ figures, c.isDigit = true)
    (hrest : ∀ c ∈ rest.head?, c.isDigit = false) :
    readFigures (figures ++ rest) = (figures, rest) := by
  obtain ⟨htake, hdrop⟩ := Text.span_append hfigures hrest
  rw [readFigures, htake, hdrop]

theorem readFigures_append_rest (text : Text) :
    (readFigures text).1 ++ (readFigures text).2 = text :=
  List.takeWhile_append_dropWhile

theorem isDigit_of_mem_readFigures {text : Text} :
    ∀ c ∈ (readFigures text).1, c.isDigit = true :=
  fun _ hc => List.mem_takeWhile_imp hc

theorem readFigures_of_nil {text : Text} (h : (readFigures text).1 = []) :
    (readFigures text).2 = text := by
  have happend := readFigures_append_rest text
  rw [h, List.nil_append] at happend
  exact happend

theorem readSign_of_ne {text : Text} (hminus : text.head? ≠ some '-')
    (hplus : text.head? ≠ some '+') : readSign text = (false, text) := by
  unfold readSign
  split
  · exact absurd rfl hminus
  · exact absurd rfl hplus
  · rfl

theorem readsOff_readSign (text : Text) :
    ReadsOff readSign (fun front => ((readSign text).1, front)) text (readSign text).2 := by
  by_cases hminus : text.head? = some '-'
  · obtain ⟨rest, rfl⟩ := List.head?_eq_some_iff.1 hminus
    exact ⟨['-'], rfl, fun front _ => rfl⟩
  by_cases hplus : text.head? = some '+'
  · obtain ⟨rest, rfl⟩ := List.head?_eq_some_iff.1 hplus
    exact ⟨['+'], rfl, fun front _ => rfl⟩
  rw [readSign_of_ne hminus hplus]
  refine ⟨[], rfl, ?_⟩
  intro front hfront
  refine readSign_of_ne ?_ ?_
  · intro hhead
    exact hminus (Text.mem_head?_of_front hfront hhead)
  · intro hhead
    exact hplus (Text.mem_head?_of_front hfront hhead)

theorem readFraction_of_ne {text : Text} (h : text.head? ≠ some '.') :
    readFraction text = ([], text) := by
  unfold readFraction
  split
  · exact absurd rfl h
  · rfl

theorem readsOff_readFraction (text : Text) :
    ReadsOff readFraction (fun front => ((readFraction text).1, front)) text
      (readFraction text).2 := by
  by_cases hpoint : text.head? = some '.'
  · obtain ⟨rest, rfl⟩ := List.head?_eq_some_iff.1 hpoint
    obtain ⟨lexeme, hsplit, hread⟩ := readsOff_readFigures rest
    refine ⟨'.' :: lexeme, congrArg ('.' :: ·) hsplit, ?_⟩
    intro front hfront
    exact hread front hfront
  · rw [readFraction_of_ne hpoint]
    refine ⟨[], rfl, ?_⟩
    intro front hfront
    refine readFraction_of_ne ?_
    intro hhead
    exact hpoint (Text.mem_head?_of_front hfront hhead)

/-! ### Exponents -/

/-- The letters in front of an exponent. -/
def IsExponentLetter (c : Char) : Prop :=
  c = 'e' ∨ c = 'E'

theorem readExponent_cons {c : Char} (hc : IsExponentLetter c) (rest : Text) :
    readExponent (c :: rest) = readExponentFigures (c :: rest) rest := by
  rcases hc with rfl | rfl <;> rfl

theorem readExponent_of_not {text : Text} (h : ∀ c ∈ text.head?, ¬IsExponentLetter c) :
    readExponent text = (0, text) := by
  unfold readExponent
  split
  · exact absurd (.inl rfl) (h _ rfl)
  · exact absurd (.inr rfl) (h _ rfl)
  · rfl

/-- The exponent that a sign and figures make. -/
def exponentOf (negative : Bool) (figures : Text) : ℤ :=
  if negative then -(valueOfFigures figures : ℤ) else valueOfFigures figures

/-- An exponent is read where figures stand behind its sign, and only there. -/
theorem readExponentFigures_eq (text rest : Text) :
    readExponentFigures text rest =
      if (readFigures (readSign rest).2).1 = [] then (0, text)
      else (exponentOf (readSign rest).1 (readFigures (readSign rest).2).1,
        (readFigures (readSign rest).2).2) := by
  unfold readExponentFigures
  cases hread : readFigures (readSign rest).2 with
  | mk figures behind =>
    cases figures with
    | nil => simp only [hread, if_true]
    | cons c cs => simp only [hread, reduceCtorEq, if_false, exponentOf]

theorem readSign_front {front text : Text} (h : front <+: text) :
    (readSign front).2 <+: (readSign text).2 := by
  cases front with
  | nil => exact List.nil_prefix
  | cons c front =>
    obtain ⟨back, rfl⟩ := h
    by_cases hminus : c = '-'
    · subst hminus
      exact List.prefix_append _ _
    by_cases hplus : c = '+'
    · subst hplus
      exact List.prefix_append _ _
    rw [readSign_of_ne (by simpa using hminus) (by simpa using hplus),
      readSign_of_ne (by simpa using hminus) (by simpa using hplus)]
    exact List.prefix_append _ _

/-- Where no figures stand behind a sign, none stand there on any front of the text. -/
theorem readFigures_readSign_nil {front text : Text} (hfront : front <+: text)
    (h : (readFigures (readSign text).2).1 = []) : (readFigures (readSign front).2).1 = [] := by
  have hreads := readsOff_readFigures (readSign text).2
  rw [readFigures_of_nil h, h] at hreads
  exact congrArg Prod.fst (hreads.on_front (readSign_front hfront))

theorem readsOff_readExponent (text : Text) :
    ReadsOff readExponent (fun front => ((readExponent text).1, front)) text
      (readExponent text).2 := by
  by_cases hhead : ∀ c ∈ text.head?, ¬IsExponentLetter c
  · rw [readExponent_of_not hhead]
    refine ⟨[], rfl, ?_⟩
    intro front hfront
    refine readExponent_of_not ?_
    intro c hc
    exact hhead c (Text.mem_head?_of_front hfront hc)
  push Not at hhead
  obtain ⟨c, hc, hletter⟩ := hhead
  obtain ⟨rest, rfl⟩ := List.head?_eq_some_iff.1 hc
  rw [readExponent_cons hletter, readExponentFigures_eq]
  by_cases hnil : (readFigures (readSign rest).2).1 = []
  · -- Without figures nothing is read, not even the letter.
    rw [if_pos hnil]
    refine ⟨[], rfl, ?_⟩
    intro front hfront
    cases front with
    | nil => rfl
    | cons d front =>
      obtain ⟨rfl, hbegins⟩ := List.cons_prefix_cons.1 hfront
      rw [List.nil_append, readExponent_cons hletter, readExponentFigures_eq,
        if_pos (readFigures_readSign_nil hbegins hnil)]
  · rw [if_neg hnil]
    obtain ⟨lexeme, hsplit, hread⟩ :=
      (readsOff_readSign rest).followedBy (readsOff_readFigures (readSign rest).2)
    refine ⟨c :: lexeme, congrArg (c :: ·) hsplit, ?_⟩
    intro front hfront
    have hsign := congrArg Prod.fst (hread front hfront)
    have hfigures := congrArg Prod.snd (hread front hfront)
    simp only at hsign hfigures
    rw [List.cons_append, readExponent_cons hletter, readExponentFigures_eq, hsign, hfigures,
      if_neg hnil]

/-- A numeral is its figures, its fraction and its exponent one behind the other. -/
theorem readsOff_read (text : Text) :
    ReadsOff read (fun front => ((read text).1, front)) text (read text).2 := by
  have hparts := (readsOff_readFigures text).followedBy
    ((readsOff_readFraction _).followedBy (readsOff_readExponent _))
  exact hparts.map fun parts : Text × Text × ℤ × Text =>
    ((⟨parts.1, parts.2.1, parts.2.2.1⟩ : Numeral), parts.2.2.2)

end Numeral

end RadixCalc
