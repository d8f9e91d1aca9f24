import RadixCalc.Proofs.Answer.Reading
import RadixCalc.Proofs.Decimal.ReadsOff

/-!
# Every character of an answer

Reading takes the characters of an answer one behind the other: the sign, the prefix, a run of
digits with separators in it, the point with a second run, and the unit. No character is dropped and
none is taken twice, whatever the separators are: they may be several characters long, and may begin
with a digit, with the neutral mark or with the point. Where two things could begin with the same
character, a digit comes before a separator, and the neutral mark before the one of the reader.

* `AnswerReader.Accounts` says how a text falls into these parts and what each of them means.
* `AnswerReader.digits_eq_iff` says that the scan for digits takes just the runs that `Run`
  describes, as far as they go.
* `AnswerReader.read?_accounts` says that every answer falls into parts in exactly one way, and that
  the number and the unit are those of the parts.
-/

namespace RadixCalc.AnswerReader

/-! ## Parts -/

/-- The sign in front of a text, and whether it is a minus. -/
inductive SignMark : Text → Bool → Text → Prop
  | plus {rest : Text} : SignMark ['+'] false rest
  | minus {rest : Text} : SignMark ['-'] true rest
  | absent {rest : Text} (hminus : rest.head? ≠ some '-') (hplus : rest.head? ≠ some '+') :
    SignMark [] false rest

/-- The prefix in front of a text, and the radix of the text. A prefix is none to a reader that does
not expect its radix. -/
inductive Front (reader : AnswerReader) : Text → Radix → Text → Prop
  | shown {c : Char} {r : Radix} {rest : Text} (hletter : (c, r.value) ∈ Radix.letters)
    (hr : reader.Expects r) : Front reader ['0', c] r rest
  | absent {rest : Text} (h : ∀ c r behind, rest = '0' :: c :: behind →
      (c, r.value) ∈ Radix.letters → ¬reader.Expects r) :
    Front reader [] (reader.radix?.getD .decimal) rest

/-- A run of digits and separators, and the values of its digits in order. A separator that begins
with a digit or with the neutral mark never stands in a run: its first character counts as this. -/
inductive Run (reader : AnswerReader) (r : Radix) : Text → List ℕ → Prop
  | nil : Run reader r [] []
  | digit {c : Char} {d : ℕ} {text : Text} {ds : List ℕ} (hd : r.digitValue? c = some d)
    (h : Run reader r text ds) : Run reader r (c :: text) (d :: ds)
  | mark {text : Text} {ds : List ℕ} (h : Run reader r text ds) :
    Run reader r (groupMark :: text) ds
  | thousands {c : Char} {cs text : Text} {ds : List ℕ} (hsep : reader.locale.thousands = c :: cs)
    (hd : r.digitValue? c = none) (hmark : c ≠ groupMark) (h : Run reader r text ds) :
    Run reader r (reader.locale.thousands ++ text) ds

/-- No run goes on with this text. -/
structure Ends (reader : AnswerReader) (r : Radix) (rest : Text) : Prop where
  digit : ∀ c ∈ rest.head?, r.digitValue? c = none
  mark : ∀ c ∈ rest.head?, c ≠ groupMark
  thousands : reader.locale.thousands ≠ [] → ¬reader.locale.thousands <+: rest

/-- The point in front of a text with the run behind it, and the values of its digits. -/
inductive FractionPart (reader : AnswerReader) (r : Radix) : Text → List ℕ → Text → Prop
  | absent {rest : Text} (h : ∀ c ∈ rest.head?, c ≠ reader.locale.point) :
    FractionPart reader r [] [] rest
  | run {text rest : Text} {ds : List ℕ} (h : Run reader r text ds) :
    FractionPart reader r (reader.locale.point :: text) ds rest

/-- An answer in parts, with what they mean. -/
@[ext]
structure Parts where
  sign : Text
  negative : Bool
  shown : Text
  radix : Radix
  whole : Text
  wholeDigits : List ℕ
  fraction : Text
  fractionDigits : List ℕ
  unit : Text

namespace Parts

/-- The parts behind the first run. -/
def behindWhole (p : Parts) : Text := p.fraction ++ p.unit

/-- The parts behind the prefix. -/
def behindShown (p : Parts) : Text := p.whole ++ p.behindWhole

/-- The parts behind the sign. -/
def behindSign (p : Parts) : Text := p.shown ++ p.behindShown

end Parts

/-- The parts make up the text, and each of them goes as far as it can. -/
structure Accounts (reader : AnswerReader) (text : Text) (p : Parts) : Prop where
  split : text = p.sign ++ (p.shown ++ (p.whole ++ (p.fraction ++ p.unit)))
  sign : SignMark p.sign p.negative p.behindSign
  shown : Front reader p.shown p.radix p.behindShown
  whole : Run reader p.radix p.whole p.wholeDigits
  behindWhole_ends : Ends reader p.radix p.behindWhole
  fraction : FractionPart reader p.radix p.fraction p.fractionDigits p.unit
  unit_ends : Ends reader p.radix p.unit

variable {reader : AnswerReader} {r : Radix}

/-! ## The sign -/

theorem SignMark.readSign_append {sign rest : Text} {negative : Bool}
    (h : SignMark sign negative rest) : Numeral.readSign (sign ++ rest) = (negative, rest) := by
  cases h with
  | plus => rfl
  | minus => rfl
  | absent hminus hplus => exact Numeral.readSign_of_ne hminus hplus

/-! ## The prefix -/

theorem readRadix_of_absent {text : Text} (h : ∀ c r behind, text = '0' :: c :: behind →
    (c, r.value) ∈ Radix.letters → ¬reader.Expects r) :
    reader.readRadix text = (reader.radix?.getD .decimal, text) := by
  refine readRadix_of_not_expects fun s hs => ?_
  obtain ⟨c, behind, htext, hletter⟩ := exists_of_ofPrefix? hs
  exact h c s behind htext (Radix.mem_letters_of_ofLetter? hletter)

theorem Front.readRadix_append {front rest : Text} (h : Front reader front r rest) :
    reader.readRadix (front ++ rest) = (r, rest) := by
  cases h with
  | shown hletter hr => exact readRadix_of_prefix hr (Radix.ofLetter?_eq_some_iff.2 hletter) rest
  | absent h => exact readRadix_of_absent h

theorem behindSeparator?_eq_some_iff {c : Char} {cs behind : Text} :
    reader.behindSeparator? (c :: cs) = some behind ↔
      c = groupMark ∧ behind = cs ∨
      c ≠ groupMark ∧ reader.locale.thousands ≠ [] ∧
        c :: cs = reader.locale.thousands ++ behind := by
  rw [behindSeparator?]
  split
  · next hmark => simp [hmark, eq_comm]
  · next hmark =>
    split
    · next hnil => simp [hmark, List.isEmpty_iff.1 hnil]
    · next hne =>
      rw [List.isEmpty_iff] at hne
      rw [Text.isPrefixOf?_eq_some_iff]
      simp [hmark, hne]

theorem behindSeparator?_eq_none_iff {c : Char} {cs : Text} :
    reader.behindSeparator? (c :: cs) = none ↔
      c ≠ groupMark ∧
        (reader.locale.thousands ≠ [] → ¬reader.locale.thousands <+: c :: cs) := by
  rw [Option.eq_none_iff_forall_ne_some]
  constructor
  · intro h
    have hmark : c ≠ groupMark :=
      fun hmark => h cs (behindSeparator?_eq_some_iff.2 (.inl ⟨hmark, rfl⟩))
    refine ⟨hmark, ?_⟩
    rintro hne ⟨behind, hsplit⟩
    exact h behind (behindSeparator?_eq_some_iff.2 (.inr ⟨hmark, hne, hsplit.symm⟩))
  · rintro ⟨hmark, hthousands⟩ behind h
    rcases behindSeparator?_eq_some_iff.1 h with ⟨hc, -⟩ | ⟨-, hne, hsplit⟩
    · exact hmark hc
    · exact hthousands hne ⟨behind, hsplit.symm⟩

theorem ends_nil : Ends reader r [] where
  digit := nofun
  mark := nofun
  thousands hne h := hne (List.prefix_nil.1 h)

theorem ends_cons_iff {c : Char} {cs : Text} :
    Ends reader r (c :: cs) ↔
      r.digitValue? c = none ∧ reader.behindSeparator? (c :: cs) = none := by
  rw [behindSeparator?_eq_none_iff]
  constructor
  · intro h
    exact ⟨h.digit c rfl, h.mark c rfl, h.thousands⟩
  · rintro ⟨hdigit, hmark, hthousands⟩
    refine ⟨?_, ?_, hthousands⟩
    · rintro _ ⟨⟩
      exact hdigit
    · rintro _ ⟨⟩
      exact hmark

/-- The scan for digits takes a run from the front and stops where no run goes on. -/
theorem exists_run (reader : AnswerReader) (r : Radix) (text : Text) :
    ∃ run, text = run ++ (reader.digits r text).2 ∧ Run reader r run (reader.digits r text).1 ∧
      Ends reader r (reader.digits r text).2 := by
  fun_induction digits reader r text with
  | case1 => exact ⟨[], rfl, .nil, ends_nil⟩
  | case2 c cs d hd ds rest hrest ih =>
    rw [hrest] at ih
    obtain ⟨run, hsplit, hrun, hends⟩ := ih
    exact ⟨c :: run, congrArg (c :: ·) hsplit, .digit hd hrun, hends⟩
  | case3 c cs hd behind hbehind hlt ih =>
    obtain ⟨run, hsplit, hrun, hends⟩ := ih
    rcases behindSeparator?_eq_some_iff.1 hbehind with ⟨rfl, rfl⟩ | ⟨hmark, hne, hfront⟩
    · exact ⟨groupMark :: run, congrArg (groupMark :: ·) hsplit, .mark hrun, hends⟩
    · -- The separator begins with the character at which the scan stands.
      obtain ⟨c', cs', hsep⟩ := List.exists_cons_of_ne_nil hne
      obtain rfl : c = c' := by
        rw [hsep] at hfront
        exact (List.cons.inj hfront).1
      refine ⟨reader.locale.thousands ++ run, ?_, .thousands hsep hd hmark hrun, hends⟩
      rw [List.append_assoc, ← hsplit, hfront]
  | case4 c cs hd hbehind => exact ⟨[], rfl, .nil, ends_cons_iff.2 ⟨hd, hbehind⟩⟩

/-- A run is scanned as its digits where no run goes on behind it. -/
theorem Run.digits_append {run rest : Text} {ds : List ℕ} (h : Run reader r run ds)
    (hrest : Ends reader r rest) : reader.digits r (run ++ rest) = (ds, rest) := by
  induction h with
  | nil =>
    cases rest with
    | nil => exact digits_nil
    | cons c cs =>
      obtain ⟨hdigit, hsep⟩ := ends_cons_iff.1 hrest
      exact digits_stop hdigit hsep
  | digit hd _ ih => rw [List.cons_append, digits_cons hd, ih]
  | mark _ ih =>
    have hmark : r.digitValue? groupMark = none := Radix.digitValue?_of_not_isAlphanum rfl
    rw [List.cons_append, digits_of_separator hmark (behindSeparator?_groupMark _), ih]
  | @thousands c cs text ds hsep hd hmark _ ih =>
    have hbehind : reader.behindSeparator? (c :: (cs ++ (text ++ rest))) = some (text ++ rest) :=
      behindSeparator?_eq_some_iff.2 (.inr ⟨hmark, by simp [hsep], by simp [hsep]⟩)
    rw [List.append_assoc, hsep, List.cons_append, digits_of_separator hd hbehind, ih]

/-- The scan for digits is the longest run. -/
theorem digits_eq_iff {text rest : Text} {ds : List ℕ} :
    reader.digits r text = (ds, rest) ↔
      ∃ run, text = run ++ rest ∧ Run reader r run ds ∧ Ends reader r rest := by
  constructor
  · intro h
    have hrun := reader.exists_run r text
    rwa [h] at hrun
  · rintro ⟨run, rfl, hrun, hrest⟩
    exact hrun.digits_append hrest

theorem exists_fractionPart {text : Text} (h : Ends reader r text) :
    ∃ part, text = part ++ (reader.readFraction r text).2 ∧
      FractionPart reader r part (reader.readFraction r text).1 (reader.readFraction r text).2 ∧
      Ends reader r (reader.readFraction r text).2 := by
  cases text with
  | nil => exact ⟨[], rfl, .absent nofun, ends_nil⟩
  | cons c cs =>
    rw [readFraction]
    split
    · next hpoint =>
      obtain ⟨run, hsplit, hrun, hends⟩ := reader.exists_run r cs
      subst hpoint
      exact ⟨reader.locale.point :: run, congrArg (reader.locale.point :: ·) hsplit, .run hrun,
        hends⟩
    · next hpoint =>
      refine ⟨[], rfl, .absent ?_, h⟩
      rintro _ ⟨⟩
      exact hpoint

theorem FractionPart.readFraction_append {part rest : Text} {ds : List ℕ}
    (h : FractionPart reader r part ds rest) (hrest : Ends reader r rest) :
    reader.readFraction r (part ++ rest) = (ds, rest) := by
  cases h with
  | absent h =>
    cases rest with
    | nil => rfl
    | cons c cs => exact if_neg (h c rfl)
  | run hrun =>
    rw [List.cons_append, readFraction, if_pos rfl]
    exact hrun.digits_append hrest

/-! ## Whole answers -/

namespace Accounts

variable {text : Text} {p p' : Parts}

theorem readSign_eq (h : reader.Accounts text p) :
    Numeral.readSign text = (p.negative, p.behindSign) := by
  rw [h.split]
  exact h.sign.readSign_append

theorem readRadix_eq (h : reader.Accounts text p) :
    reader.readRadix p.behindSign = (p.radix, p.behindShown) :=
  h.shown.readRadix_append

theorem digits_eq (h : reader.Accounts text p) :
    reader.digits p.radix p.behindShown = (p.wholeDigits, p.behindWhole) :=
  h.whole.digits_append h.behindWhole_ends

theorem readFraction_eq (h : reader.Accounts text p) :
    reader.readFraction p.radix p.behindWhole = (p.fractionDigits, p.unit) :=
  h.fraction.readFraction_append h.unit_ends

/-- A text falls into parts in one way only: what is behind a part decides the part. -/
theorem unique (h : reader.Accounts text p) (h' : reader.Accounts text p') : p = p' := by
  obtain ⟨hnegative, hbehindSign⟩ := Prod.mk.inj (h.readSign_eq.symm.trans h'.readSign_eq)
  have hsign : p.sign = p'.sign :=
    List.append_inj_left' (h.split.symm.trans h'.split) (congrArg List.length hbehindSign)
  have hreadRadix := h.readRadix_eq
  rw [hbehindSign, h'.readRadix_eq] at hreadRadix
  obtain ⟨hradix, hbehindShown⟩ := Prod.mk.inj hreadRadix.symm
  have hshown : p.shown = p'.shown :=
    List.append_inj_left' hbehindSign (congrArg List.length hbehindShown)
  have hdigits := h.digits_eq
  rw [hradix, hbehindShown, h'.digits_eq] at hdigits
  obtain ⟨hwholeDigits, hbehindWhole⟩ := Prod.mk.inj hdigits.symm
  have hwhole : p.whole = p'.whole :=
    List.append_inj_left' hbehindShown (congrArg List.length hbehindWhole)
  have hreadFraction := h.readFraction_eq
  rw [hradix, hbehindWhole, h'.readFraction_eq] at hreadFraction
  obtain ⟨hfractionDigits, hunit⟩ := Prod.mk.inj hreadFraction.symm
  have hfraction : p.fraction = p'.fraction :=
    List.append_inj_left' hbehindWhole (congrArg List.length hunit)
  exact Parts.ext hsign hnegative hshown hradix hwhole hwholeDigits hfraction hfractionDigits hunit

end Accounts

end RadixCalc.AnswerReader
