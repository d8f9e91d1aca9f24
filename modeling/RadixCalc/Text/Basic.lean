/-!
# Texts

A text is the list of its Unicode characters. Everything that is read or written here, formulas,
answers, layouts and settings, is a text in this sense; strings appear only where literals are
written down.

* `Text` is the type of texts.
* `CodeRange` and `inRanges` decide a character property from a table of code point ranges.
* `isPrefixOf?_eq_some_iff` says what it means to take a piece off the front of a text.
* `Text.replaceAll` is the left-to-right replacement of a needle.
-/

namespace RadixCalc

/-- A text: its characters in order. -/
abbrev Text := List Char

namespace Text

/-! ## Character properties by table

The tables hold the properties of Unicode 17.0, ranges in increasing order and apart. -/

/-- An inclusive range of code points. -/
abbrev CodeRange := Nat × Nat

/-- Tells whether a character lies in one of the ranges. -/
def inRanges (ranges : List CodeRange) (c : Char) : Bool :=
  ranges.any fun range => range.1 ≤ c.toNat && c.toNat ≤ range.2

/-! ## Pieces of a text -/

theorem isPrefixOf?_eq_some_iff {front text rest : Text} :
    front.isPrefixOf? text = some rest ↔ text = front ++ rest := by
  induction front generalizing text with
  | nil => exact ⟨fun h => Option.some.inj h, fun h => congrArg some h⟩
  | cons c front ih =>
    cases text with
    | nil => exact ⟨nofun, nofun⟩
    | cons d text =>
      change (if c == d then front.isPrefixOf? text else none) = some rest ↔ _
      by_cases h : c = d
      · simp [h, ih]
      · simp [h, Ne.symm h]

theorem length_of_isPrefixOf? {front text rest : Text} (hne : front ≠ [])
    (h : front.isPrefixOf? text = some rest) : rest.length < text.length := by
  have hpos := List.length_pos_iff.2 hne
  rw [isPrefixOf?_eq_some_iff.1 h, List.length_append]
  omega

/-! ## Replacement -/

/-- Replaces every occurrence of the needle, from left to right and without rereading what was
written. An empty needle occurs nowhere. -/
def replaceAll (needle written : Text) : Text → Text
  | [] => []
  | c :: cs =>
    match h : needle.isPrefixOf? (c :: cs) with
    | none => c :: replaceAll needle written cs
    | some rest =>
      if hne : needle = [] then c :: replaceAll needle written cs
      else
        have : rest.length < cs.length + 1 := length_of_isPrefixOf? hne h
        written ++ replaceAll needle written rest
  termination_by text => text.length

/-- Where the needle does not stand the first character stays. -/
theorem replaceAll_cons {needle : Text} (written : Text) {c : Char} {cs : Text}
    (h : ¬needle <+: c :: cs) :
    replaceAll needle written (c :: cs) = c :: replaceAll needle written cs := by
  rw [replaceAll]
  split
  · rfl
  · next rest hrest => exact absurd ⟨rest, (isPrefixOf?_eq_some_iff.1 hrest).symm⟩ h

/-- A needle in front is replaced. -/
theorem replaceAll_append {needle : Text} (hne : needle ≠ []) (written rest : Text) :
    replaceAll needle written (needle ++ rest) = written ++ replaceAll needle written rest := by
  obtain ⟨c, cs, rfl⟩ := List.exists_cons_of_ne_nil hne
  have hfront : (c :: cs).isPrefixOf? (c :: (cs ++ rest)) = some rest :=
    isPrefixOf?_eq_some_iff.2 rfl
  rw [List.cons_append, replaceAll]
  split
  · next hnone =>
    rw [hfront] at hnone
    cases hnone
  · next rest' hrest =>
    rw [hfront] at hrest
    cases hrest
    rw [dif_neg hne]

/-- Characters with which the needle does not begin stay. -/
theorem replaceAll_of_not_mem {a : Char} {text : Text} (h : a ∉ text) (needle written rest : Text) :
    replaceAll (a :: needle) written (text ++ rest) =
      text ++ replaceAll (a :: needle) written rest := by
  induction text with
  | nil => rfl
  | cons c cs ih =>
    rw [List.mem_cons, not_or] at h
    have hfront : ¬a :: needle <+: c :: (cs ++ rest) := by
      rintro ⟨behind, hsplit⟩
      exact h.1 (List.cons.inj hsplit).1
    rw [List.cons_append, replaceAll_cons written hfront, ih h.2, List.cons_append]

end Text

end RadixCalc
