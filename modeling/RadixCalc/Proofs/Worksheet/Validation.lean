import RadixCalc.Proofs.Formula.Failing
import RadixCalc.Proofs.Formula.Variables
import RadixCalc.Worksheet

/-!
# Validation and calculation

A formula can be validated before it is calculated. The two differ in one step only: a calculation
first puts plain characters in place of the entities of an escaped text, and validation does not.
So calculation agrees with the validation of the plain text, always, and with that of the text
itself exactly where the entities do not matter (`Worksheet.agrees_complaint?_iff`).

* `Formula.complaint?` is the verdict of validation as a message.
* `Worksheet.Agrees` says what a verdict must foretell of a calculation.
* `Worksheet.complaint?_entities` are two texts on which the step matters: a valid escaped
  comparison is refused, and a name that holds an entity is accepted but cannot be calculated.
-/

namespace RadixCalc

/-- The message about a formula given as text, or nothing where the formula is valid. -/
def Formula.complaint? (text : Text) : Option Text :=
  match check text with
  | .ok () => none
  | .error e => some e.message

theorem Formula.complaint?_eq (text : Text) :
    complaint? text = match ofText text.trim with
      | .ok _ => none
      | .error e => some e.message := by
  unfold complaint? check
  cases ofText text.trim <;> rfl

/-! ## Replacing entities -/

/-- A text in which the needle does not occur stays as it is. -/
theorem Text.replaceAll_eq_self {needle : Text} (written : Text) {text : Text}
    (h : ¬needle <:+: text) : replaceAll needle written text = text := by
  induction text with
  | nil => rw [replaceAll]
  | cons c cs ih =>
    have hcs : ¬needle <:+: cs := fun hwithin => h (hwithin.trans (List.suffix_cons c cs).isInfix)
    rw [replaceAll_cons written fun hfront => h hfront.isInfix, ih hcs]

namespace Worksheet

open Formula (complaint?)

theorem unescape_eq_self {text : Text} (h : ∀ entity ∈ entities, ¬entity.1 <:+: text) :
    unescape text = text := by
  unfold unescape
  generalize entities = es at h
  induction es with
  | nil => rfl
  | cons e es ih =>
    obtain ⟨entity, plain⟩ := e
    have hentity : ¬entity <:+: text := h (entity, plain) (by simp)
    rw [List.foldl_cons]
    simp only [Text.replaceAll_eq_self plain hentity]
    exact ih fun e' he' => h e' (by simp [he'])

/-! ## What a calculation gives -/

variable (w : Worksheet) (expression : Text)

/-- A formula that is read has a value, or one of its variables has none. -/
theorem calculate_of_ofText {e : Formula}
    (h : Formula.ofText (unescape expression).trim = .ok e) :
    (∃ v, w.calculate expression = .ok v) ∨
      ∃ name, w.calculate expression = .error (.unboundVariable name) := by
  unfold calculate
  simp only [h]
  split
  · next name _ => exact .inr ⟨name, rfl⟩
  · next hnone =>
    left
    apply Formula.exists_eval
    intro name hname
    have hbound := List.find?_eq_none.1 hnone name (List.mem_eraseDups.2 hname)
    exact Option.ne_none_iff_exists'.1 (by simpa using hbound)

/-- A formula that is not read fails in the same way when it is calculated. -/
theorem calculate_of_ofText_error {e : Failure}
    (h : Formula.ofText (unescape expression).trim = .error e) :
    w.calculate expression = .error e := by
  unfold calculate
  rw [h]

/-! ## Verdicts -/

/-- A verdict on a formula agrees with its calculation. There is no complaint exactly where the
calculation gives a value or lacks one of a variable, and any other failure is one of reading the
formula and is the complaint. -/
structure Agrees (verdict : Option Text) : Prop where
  eq_none_iff : verdict = none ↔ (∃ v, w.calculate expression = .ok v) ∨
    ∃ name, w.calculate expression = .error (.unboundVariable name)
  eq_message : ∀ e, w.calculate expression = .error e → (∀ name, e ≠ .unboundVariable name) →
    e.isFormulaFailure = true ∧ verdict = some e.message

/-- The verdict on the text without entities agrees with the calculation. -/
theorem agrees_unescape : w.Agrees expression (complaint? (unescape expression)) := by
  rw [Formula.complaint?_eq]
  cases h : Formula.ofText (unescape expression).trim with
  | ok t =>
    have hcalc := w.calculate_of_ofText expression h
    refine ⟨by simpa using hcalc, ?_⟩
    intro e he hne
    rcases hcalc with ⟨v, hv⟩ | ⟨name, hname⟩
    · rw [hv] at he
      cases he
    · rw [hname] at he
      cases he
      exact absurd rfl (hne name)
  | error e =>
    have hcalc := w.calculate_of_ofText_error expression h
    have hfails := Formula.failsToRead_ofText _ e h
    refine ⟨⟨by simp, ?_⟩, ?_⟩
    · rintro (⟨v, hv⟩ | ⟨name, hname⟩)
      · rw [hcalc] at hv
        cases hv
      · rw [hcalc] at hname
        cases hname
        cases hfails
    · intro e' he' _
      rw [hcalc] at he'
      cases he'
      exact ⟨hfails, rfl⟩

/-- Only one verdict agrees with a calculation. -/
theorem Agrees.unique {verdict verdict' : Option Text} (h : w.Agrees expression verdict)
    (h' : w.Agrees expression verdict') : verdict = verdict' := by
  cases verdict with
  | none => exact (h'.eq_none_iff.2 (h.eq_none_iff.1 rfl)).symm
  | some message =>
    have hnone := mt h.eq_none_iff.2 (by simp)
    cases hcalc : w.calculate expression with
    | ok v => exact absurd (.inl ⟨v, hcalc⟩) hnone
    | error e =>
      have hne : ∀ name, e ≠ .unboundVariable name := by
        rintro name rfl
        exact hnone (.inr ⟨name, hcalc⟩)
      rw [(h.eq_message e hcalc hne).2, (h'.eq_message e hcalc hne).2]

theorem agrees_iff_eq {verdict : Option Text} :
    w.Agrees expression verdict ↔ verdict = complaint? (unescape expression) :=
  ⟨fun h => h.unique w expression (w.agrees_unescape expression),
    fun h => h ▸ w.agrees_unescape expression⟩

/-- Validation of a formula agrees with its calculation exactly where the entities in its text do
not change the verdict, and so wherever the text has no entities. -/
theorem agrees_complaint?_iff :
    (w.Agrees expression (complaint? expression) ↔
      complaint? expression = complaint? (unescape expression)) ∧
    ((∀ entity ∈ entities, ¬entity.1 <:+: expression) →
      w.Agrees expression (complaint? expression)) := by
  refine ⟨w.agrees_iff_eq expression, fun h => ?_⟩
  rw [agrees_iff_eq, unescape_eq_self h]

/-- An escaped comparison is calculated but not valid, and a name that holds an entity is valid but
not calculated. -/
theorem complaint?_entities :
    (complaint? "1 &lt; 2".toList = some "syntaxe de formule illégale : ;".toList ∧
      calculate ⟨[], .standard⟩ "1 &lt; 2".toList = .ok .one ∧
      ¬Agrees ⟨[], .standard⟩ "1 &lt; 2".toList (complaint? "1 &lt; 2".toList)) ∧
    (complaint? "\x7ba&lt;b\x7d".toList = none ∧
      calculate ⟨[], .standard⟩ "\x7ba&lt;b\x7d".toList =
        .error (.badFormula (.illegalText "\x7ba<b\x7d".toList)) ∧
      ¬Agrees ⟨[], .standard⟩ "\x7ba&lt;b\x7d".toList
        (complaint? "\x7ba&lt;b\x7d".toList)) := by
  have hrefused : complaint? "1 &lt; 2".toList =
      some "syntaxe de formule illégale : ;".toList := by decide +kernel
  have hvalue : calculate ⟨[], .standard⟩ "1 &lt; 2".toList = .ok .one := by decide +kernel
  have haccepted : complaint? "\x7ba&lt;b\x7d".toList = none := by decide +kernel
  have hfails : calculate ⟨[], .standard⟩ "\x7ba&lt;b\x7d".toList =
      .error (.badFormula (.illegalText "\x7ba<b\x7d".toList)) := by decide +kernel
  refine ⟨⟨hrefused, hvalue, fun h => ?_⟩, haccepted, hfails, fun h => ?_⟩
  · rw [h.eq_none_iff.2 (.inl ⟨_, hvalue⟩)] at hrefused
    cases hrefused
  · rw [(h.eq_message _ hfails (by simp)).2] at haccepted
    cases haccepted

end Worksheet

end RadixCalc
