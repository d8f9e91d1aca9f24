import RadixCalc.Proofs.Layout.Directive
import RadixCalc.Worksheet

/-!
# Filling in a text

A text is filled in from left to right. The prose before its first formula is filled on its own,
the value of the formula is written behind it as it is, and the rest is filled as a text of its own;
so nothing that a formula gave is read again and no name in braces reaches across a formula. One
formula that fails fails the whole text, and the first one says how.

* `Passage.FirstSpan` is the first place of a text where a formula begins, and
  `Passage.takenApart_ofTextFrom` takes a text apart there.
* `Worksheet.shows_showBy` says how a value is shown: no layout that a directive spells is refused.
* `Worksheet.fill_cases` is filling in.
-/

namespace RadixCalc

namespace Passage

/-! ## Where formulas begin -/

/-- The formula that begins at a place of a text: its directive, its expression and the text behind
it. -/
def spanAt? (text : Text) (i : ℕ) : Option (Text × Text × Text) :=
  match text.drop i with
  | '\x7b' :: behind => readSpan? behind
  | _ => none

/-- This is the first place of the text where a formula begins. -/
structure FirstSpan (text : Text) (i : ℕ) (directive expression rest : Text) : Prop where
  eq_some : spanAt? text i = some (directive, expression, rest)
  before : ∀ j < i, spanAt? text j = none

theorem spanAt?_nil (i : ℕ) : spanAt? [] i = none := by
  rw [spanAt?, List.drop_nil]

theorem forall_spanAt?_cons {c : Char} {cs : Text} (hc : spanAt? (c :: cs) 0 = none)
    (h : ∀ i, spanAt? cs i = none) (i : ℕ) : spanAt? (c :: cs) i = none := by
  cases i with
  | zero => exact hc
  | succ i => exact h i

theorem FirstSpan.cons {c : Char} {cs directive expression rest : Text} {i : ℕ}
    (hc : spanAt? (c :: cs) 0 = none) (h : FirstSpan cs i directive expression rest) :
    FirstSpan (c :: cs) (i + 1) directive expression rest := by
  refine ⟨h.eq_some, fun j hj => ?_⟩
  cases j with
  | zero => exact hc
  | succ j => exact h.before j (Nat.lt_of_succ_lt_succ hj)

/-! ### What a formula spells -/

theorem readDirective_append (text : Text) :
    (readDirective text).1 ++ (readDirective text).2 = text := by
  unfold readDirective
  split
  · exact List.takeWhile_append_dropWhile
  · rfl

theorem eq_append_of_readInner? {text name rest : Text} (h : readInner? text = some (name, rest)) :
    text = name ++ rest := by
  have hsplit := List.takeWhile_append_dropWhile (p := isPlain) (l := text)
  unfold readInner? at h
  split at h
  · cases h
  · next hdrop _ =>
    cases h
    rw [hdrop] at hsplit
    simpa using hsplit.symm
  · cases h

theorem eq_append_of_readExpression? {text expression rest : Text}
    (h : readExpression? text = some (expression, rest)) :
    text = expression ++ '\x7d' :: rest := by
  fun_induction readExpression? text generalizing expression rest with
  | case1 => cases h
  | case2 cs =>
    cases h
    rfl
  | case3 => cases h
  | case4 cs name behind hinner _ _ ih =>
    obtain ⟨⟨e, r⟩, he, heq⟩ := Option.map_eq_some_iff.1 h
    cases heq
    rw [eq_append_of_readInner? hinner, ih he]
    simp
  | case5 c cs _ _ ih =>
    obtain ⟨⟨e, r⟩, he, heq⟩ := Option.map_eq_some_iff.1 h
    cases heq
    rw [ih he]
    rfl

/-- A formula is its directive, an equals sign and its expression between braces. -/
theorem FirstSpan.eq_append {text directive expression rest : Text} {i : ℕ}
    (h : FirstSpan text i directive expression rest) :
    text = text.take i ++ '\x7b' :: (directive ++ '=' :: (expression ++ '\x7d' :: rest)) := by
  have hspan := h.eq_some
  unfold spanAt? at hspan
  split at hspan
  · next behind hdrop =>
    unfold readSpan? at hspan
    split at hspan
    · next d behind' hdirective =>
      obtain ⟨⟨e, r⟩, he, heq⟩ := Option.map_eq_some_iff.1 hspan
      cases heq
      have happend := readDirective_append behind
      rw [hdirective, eq_append_of_readExpression? he] at happend
      conv_lhs => rw [← List.take_append_drop i text, hdrop, ← happend]
    · cases hspan
  · cases hspan

/-! ### Passages -/

/-- The passages of a text that stands behind prose read before: all of it is prose, or it is prose
up to its first formula, the formula, and the passages behind it. -/
def TakenApart (before text : Text) (passages : List Passage) : Prop :=
  (∀ i, spanAt? text i = none) ∧ passages = [prose (before.reverse ++ text)] ∨
    ∃ i directive expression rest, FirstSpan text i directive expression rest ∧
      passages = prose (before.reverse ++ text.take i) :: formula directive expression ::
        ofText rest

/-- A character that begins no formula goes to the prose. -/
theorem TakenApart.of_cons {c : Char} {before cs : Text} {passages : List Passage}
    (hc : spanAt? (c :: cs) 0 = none) (h : TakenApart (c :: before) cs passages) :
    TakenApart before (c :: cs) passages := by
  rcases h with ⟨hnone, rfl⟩ | ⟨i, directive, expression, rest, hfirst, rfl⟩
  · exact .inl ⟨forall_spanAt?_cons hc hnone, by simp⟩
  · exact .inr ⟨i + 1, directive, expression, rest, hfirst.cons hc, by simp⟩

theorem takenApart_ofTextFrom (before text : Text) :
    TakenApart before text (ofTextFrom before text) := by
  fun_induction ofTextFrom before text with
  | case1 before => exact .inl ⟨spanAt?_nil, by simp⟩
  | case2 before cs directive expression rest h _ _ =>
    exact .inr ⟨0, directive, expression, rest, ⟨h, nofun⟩, by simp [ofText]⟩
  | case3 before cs h ih => exact ih.of_cons h
  | case4 before c cs hc ih =>
    refine ih.of_cons ?_
    rw [spanAt?, List.drop_zero]
    split
    · next heq => exact absurd (List.cons.inj heq).1 hc
    · rfl

end Passage

/-! ## Showing a value -/

namespace Worksheet

variable (w : Worksheet)

/-- The text shows a number as a directive asks: in the layout that it spells, and plainly where it
spells none. -/
def Shows (directive : Text) (v : Double) (shown : Text) : Prop :=
  match Layout.ofDirective? directive with
  | some l => w.locale.display l v = .ok shown
  | none => shown = w.locale.simpleText v

/-- Every number is shown as its directive asks. -/
theorem shows_showBy (directive : Text) (v : Double) :
    w.Shows directive v (w.showBy directive v) := by
  unfold Shows
  split
  · next l hl =>
    obtain ⟨r, hr⟩ := Layout.exists_radix_of_ofDirective? hl w.locale.exactDigits
    have hne : directive.isEmpty = false := by
      cases directive with
      | nil => cases hl
      | cons c cs => rfl
    have hdisplay : w.locale.display l v =
        .ok (w.locale.localize l.group ({ l with exactDigits := w.locale.exactDigits }.displayIn
          r v)) := by
      rw [Locale.display, Layout.display, hr]
    rw [showBy, hne, if_neg Bool.false_ne_true, Locale.displayBy?, hl]
    simp only [hdisplay]
    rfl
  · next hnone =>
    rw [showBy, Locale.displayBy?, hnone]
    exact ite_self _

/-! ## Filling in -/

theorem bind_pure_eq_error_iff {α β ε : Type} {x : Except ε α} {f : α → β} {e : ε} :
    (do let a ← x; pure (f a)) = .error e ↔ x = .error e := by
  cases x with
  | error e' => exact ⟨fun h => by cases h; rfl, fun h => by cases h; rfl⟩
  | ok a => exact iff_of_false nofun nofun

theorem bind_pure_eq_ok_iff {α β ε : Type} {x : Except ε α} {f : α → β} {b : β} :
    (do let a ← x; pure (f a)) = .ok b ↔ ∃ a, x = .ok a ∧ f a = b := by
  cases x with
  | error e => exact iff_of_false nofun (by rintro ⟨a, h, -⟩; cases h)
  | ok a =>
    constructor
    · intro h
      cases h
      exact ⟨a, rfl, rfl⟩
    · rintro ⟨a', h, rfl⟩
      cases h
      rfl

/-- The first member of a list with a property. -/
theorem exists_first {α : Type} {P : α → Prop} {l : List α} (h : ∃ a ∈ l, P a) :
    ∃ front a back, l = front ++ a :: back ∧ P a ∧ ∀ b ∈ front, ¬P b := by
  classical
  obtain ⟨a, ha, hP⟩ := h
  obtain ⟨b, hb⟩ : ∃ b, l.find? (decide <| P ·) = some b :=
    Option.isSome_iff_exists.1 (List.find?_isSome.2 ⟨a, ha, decide_eq_true hP⟩)
  obtain ⟨hPb, front, back, hsplit, hfront⟩ := List.find?_eq_some_iff_append.1 hb
  exact ⟨front, b, back, hsplit, of_decide_eq_true hPb, fun c hc => by simpa using hfront c hc⟩

/-- A list fails as the first of its members that fails. -/
theorem mapM_eq_error_iff {α β ε : Type} {f : α → Except ε β} {l : List α} {e : ε} :
    l.mapM f = .error e ↔ ∃ front a back, l = front ++ a :: back ∧ f a = .error e ∧
      ∀ b ∈ front, ∃ c, f b = .ok c := by
  induction l with
  | nil =>
    refine iff_of_false nofun ?_
    rintro ⟨front, a, back, hnil, -⟩
    simp at hnil
  | cons a l ih =>
    rw [List.mapM_cons]
    cases hfa : f a with
    | error e' =>
      constructor
      · intro h
        cases h
        exact ⟨[], a, l, rfl, hfa, nofun⟩
      · rintro ⟨front, b, back, hsplit, hfb, hfront⟩
        cases front with
        | nil =>
          cases hsplit
          rw [hfa] at hfb
          cases hfb
          rfl
        | cons c front =>
          cases hsplit
          obtain ⟨d, hd⟩ := hfront a List.mem_cons_self
          rw [hfa] at hd
          cases hd
    | ok b =>
      refine bind_pure_eq_error_iff.trans (ih.trans ?_)
      constructor
      · rintro ⟨front, c, back, rfl, hfc, hfront⟩
        exact ⟨a :: front, c, back, rfl, hfc, List.forall_mem_cons.2 ⟨⟨b, hfa⟩, hfront⟩⟩
      · rintro ⟨front, c, back, hsplit, hfc, hfront⟩
        cases front with
        | nil =>
          cases hsplit
          rw [hfa] at hfc
          cases hfc
        | cons d front =>
          cases hsplit
          exact ⟨front, c, back, rfl, hfc, (List.forall_mem_cons.1 hfront).2⟩

theorem fill_of_prose {text p : Text} (h : Passage.ofText text = [.prose p]) :
    w.fill text = .ok (w.fillProse p) := by
  rw [fill, h, List.mapM_cons, List.mapM_nil]
  exact congrArg Except.ok (List.append_nil _)

/-- A formula between prose and the passages of another text. -/
theorem fill_of_formula {text p directive expression rest : Text}
    (h : Passage.ofText text =
      .prose p :: .formula directive expression :: Passage.ofText rest) :
    w.fill text = (do
      let v ← w.calculate expression
      let filled ← w.fill rest
      pure (w.fillProse p ++ w.showBy directive v ++ filled)) := by
  have hformula : w.fillPassage (.formula directive expression) =
      (w.calculate expression).map (w.showBy directive) := by
    rw [fillPassage]
    cases w.calculate expression <;> rfl
  have hprose : w.fillPassage (.prose p) = .ok (w.fillProse p) := rfl
  rw [fill, h, List.mapM_cons, List.mapM_cons, hformula, hprose]
  cases w.calculate expression with
  | error e => rfl
  | ok v =>
    rw [fill]
    cases (Passage.ofText rest).mapM w.fillPassage with
    | error e => rfl
    | ok texts => exact congrArg Except.ok (List.append_assoc _ _ _).symm

/-- Only a formula can fail. -/
theorem fillPassage_eq_error_iff {passage : Passage} {e : Failure} :
    w.fillPassage passage = .error e ↔
      ∃ directive expression, passage = .formula directive expression ∧
        w.calculate expression = .error e := by
  cases passage with
  | prose text =>
    refine iff_of_false nofun ?_
    rintro ⟨directive, expression, heq, -⟩
    cases heq
  | formula directive expression =>
    rw [fillPassage]
    cases hcalc : w.calculate expression with
    | error e' =>
      constructor
      · intro h
        cases h
        exact ⟨directive, expression, rfl, hcalc⟩
      · rintro ⟨d, x, heq, hx⟩
        cases heq
        rw [hcalc] at hx
        cases hx
        rfl
    | ok v =>
      refine iff_of_false nofun ?_
      rintro ⟨d, x, heq, hx⟩
      cases heq
      rw [hcalc] at hx
      cases hx

theorem exists_fillPassage_iff {passage : Passage} :
    (∃ filled, w.fillPassage passage = .ok filled) ↔
      ∀ directive expression, passage = .formula directive expression →
        ∃ v, w.calculate expression = .ok v := by
  cases hpassage : w.fillPassage passage with
  | ok filled =>
    refine iff_of_true ⟨filled, rfl⟩ fun directive expression heq => ?_
    cases hcalc : w.calculate expression with
    | ok v => exact ⟨v, rfl⟩
    | error e =>
      rw [w.fillPassage_eq_error_iff.2 ⟨directive, expression, heq, hcalc⟩] at hpassage
      cases hpassage
  | error e =>
    obtain ⟨directive, expression, heq, hcalc⟩ := w.fillPassage_eq_error_iff.1 hpassage
    refine iff_of_false nofun fun h => ?_
    obtain ⟨v, hv⟩ := h directive expression heq
    rw [hcalc] at hv
    cases hv

/-- A text fails as the first of its formulas that fails. -/
theorem fill_eq_error_iff {text : Text} {e : Failure} :
    w.fill text = .error e ↔ ∃ front directive expression back,
      Passage.ofText text = front ++ .formula directive expression :: back ∧
      w.calculate expression = .error e ∧
      ∀ d x, .formula d x ∈ front → ∃ v, w.calculate x = .ok v := by
  have hfill : w.fill text = .error e ↔ (Passage.ofText text).mapM w.fillPassage = .error e := by
    rw [fill]
    cases (Passage.ofText text).mapM w.fillPassage with
    | error e' => exact ⟨fun h => by cases h; rfl, fun h => by cases h; rfl⟩
    | ok texts => exact iff_of_false nofun nofun
  rw [hfill, mapM_eq_error_iff]
  simp only [fillPassage_eq_error_iff, exists_fillPassage_iff]
  constructor
  · rintro ⟨front, passage, back, hsplit, ⟨directive, expression, rfl, hcalc⟩, hfront⟩
    exact ⟨front, directive, expression, back, hsplit, hcalc, fun d x h => hfront _ h d x rfl⟩
  · rintro ⟨front, directive, expression, back, hsplit, hcalc, hfront⟩
    refine ⟨front, _, back, hsplit, ⟨directive, expression, rfl, hcalc⟩, ?_⟩
    rintro passage h d x rfl
    exact hfront d x h

/-- Filling in goes from left to right. A text without a formula is filled as prose. Otherwise the
prose before its first formula is filled, what the formula gives stands behind it unread, and the
rest is a text of its own. The failure of a text is that of its first formula that fails. -/
theorem fill_cases (text : Text) :
    ((∀ i, Passage.spanAt? text i = none) ∧ w.fill text = .ok (w.fillProse text) ∨
      ∃ i directive expression rest, Passage.FirstSpan text i directive expression rest ∧
        text = text.take i ++ '\x7b' :: (directive ++ '=' :: (expression ++ '\x7d' :: rest)) ∧
        (∀ v, w.Shows directive v (w.showBy directive v)) ∧
        w.fill text = do
          let v ← w.calculate expression
          let filled ← w.fill rest
          pure (w.fillProse (text.take i) ++ w.showBy directive v ++ filled)) ∧
    (∀ e, w.fill text = .error e ↔ ∃ front directive expression back,
      Passage.ofText text = front ++ .formula directive expression :: back ∧
      w.calculate expression = .error e ∧
      ∀ d x, .formula d x ∈ front → ∃ v, w.calculate x = .ok v) := by
  refine ⟨?_, fun e => w.fill_eq_error_iff⟩
  rcases Passage.takenApart_ofTextFrom [] text with
    ⟨hnone, htext⟩ | ⟨i, directive, expression, rest, hfirst, htext⟩
  · exact .inl ⟨hnone, w.fill_of_prose htext⟩
  · exact .inr ⟨i, directive, expression, rest, hfirst, hfirst.eq_append,
      w.shows_showBy directive, w.fill_of_formula htext⟩

end Worksheet

end RadixCalc
