import RadixCalc.Text.Basic

/-!
# Texts with formulas in them

In a text a formula stands in braces behind an equals sign, as in `{={a} + 1}`, and a layout
directive may stand before the sign, as in `{%x={a} + 1}`. Within the expression braces may enclose
names, but not braces again.

* `Passage.readSpan?` reads one formula whose opening brace has just been read.
* `Passage.ofText` takes a text apart into formulas and the prose between them.
-/

namespace RadixCalc

/-- A piece of a text. -/
inductive Passage where
  /-- Prose without a formula. -/
  | prose (text : Text)
  /-- A formula, with the directive before its equals sign. -/
  | formula (directive expression : Text)
  deriving DecidableEq, Repr

namespace Passage

/-- Tells whether a character is no brace. -/
def isPlain (c : Char) : Bool :=
  c != '\x7b' && c != '\x7d'

/-- Tells whether a character may stand in a directive. -/
def isDirectiveChar (c : Char) : Bool :=
  isPlain c && c != '='

/-- The directive in front of an equals sign, which is empty or begins with a percent sign, and the
text behind it. -/
def readDirective (text : Text) : Text × Text :=
  match text with
  | '%' :: _ => (text.takeWhile isDirectiveChar, text.dropWhile isDirectiveChar)
  | _ => ([], text)

/-- The name between braces whose opening brace has just been read, with its closing brace, and what
follows it. -/
def readInner? (text : Text) : Option (Text × Text) :=
  match text.takeWhile isPlain, text.dropWhile isPlain with
  | [], _ => none
  | name, '\x7d' :: rest => some (name ++ ['\x7d'], rest)
  | _, _ => none

theorem length_of_readInner? {text name rest : Text} (h : readInner? text = some (name, rest)) :
    rest.length < text.length := by
  have hle := (List.dropWhile_suffix (l := text) isPlain).length_le
  unfold readInner? at h
  split at h
  · simp at h
  · next hdrop _ =>
    obtain ⟨_, rfl⟩ := Prod.mk.inj (Option.some.inj h)
    rw [hdrop, List.length_cons] at hle
    exact hle
  · simp at h

/-- The expression up to the brace that closes the formula, and what follows it. -/
def readExpression? (text : Text) : Option (Text × Text) :=
  match text with
  | [] => none
  | c :: cs =>
    if c = '\x7d' then some ([], cs)
    else if c = '\x7b' then
      match h : readInner? cs with
      | none => none
      | some (name, behind) =>
        have : behind.length < cs.length := length_of_readInner? h
        (readExpression? behind).map fun (expression, rest) => (c :: name ++ expression, rest)
    else (readExpression? cs).map fun (expression, rest) => (c :: expression, rest)
  termination_by text.length

/-- The formula whose opening brace has just been read, as directive and expression, and what
follows it. -/
def readSpan? (text : Text) : Option (Text × Text × Text) :=
  match readDirective text with
  | (directive, '=' :: behind) =>
    (readExpression? behind).map fun (expression, rest) => (directive, expression, rest)
  | _ => none

theorem length_of_readExpression? {text expression rest : Text}
    (h : readExpression? text = some (expression, rest)) : rest.length < text.length := by
  fun_induction readExpression? text generalizing expression rest with
  | case1 => simp at h
  | case2 => simp_all
  | case3 => simp at h
  | case4 cs _ name behind hin hlt ih =>
    obtain ⟨⟨e, r⟩, he, heq⟩ := Option.map_eq_some_iff.1 h
    obtain ⟨_, rfl⟩ := Prod.mk.inj heq
    have := ih he
    simp only [List.length_cons]
    omega
  | case5 c cs _ _ ih =>
    obtain ⟨⟨e, r⟩, he, heq⟩ := Option.map_eq_some_iff.1 h
    obtain ⟨_, rfl⟩ := Prod.mk.inj heq
    have := ih he
    simp only [List.length_cons]
    omega

theorem length_of_readSpan? {text directive expression rest : Text}
    (h : readSpan? text = some (directive, expression, rest)) : rest.length < text.length := by
  unfold readSpan? at h
  split at h
  · next d behind heq =>
    obtain ⟨⟨e, r⟩, he, hpair⟩ := Option.map_eq_some_iff.1 h
    obtain ⟨_, rfl⟩ := (Prod.mk.inj (Prod.mk.inj hpair).2)
    have h₁ := length_of_readExpression? he
    have h₂ : (readDirective text).2.length ≤ text.length := by
      unfold readDirective
      split
      · exact (List.dropWhile_suffix _).length_le
      · exact Nat.le_refl _
    rw [heq] at h₂
    simp at h₂
    omega
  · simp at h

/-- The passages of a text, behind prose read before, latest character first. Prose is kept even
where it is empty, so a formula always stands between two pieces of prose. -/
def ofTextFrom (before : Text) (text : Text) : List Passage :=
  match text with
  | [] => [prose before.reverse]
  | c :: cs =>
    if c = '\x7b' then
      match h : readSpan? cs with
      | some (directive, expression, rest) =>
        have : rest.length < cs.length := length_of_readSpan? h
        prose before.reverse :: formula directive expression :: ofTextFrom [] rest
      | none => ofTextFrom (c :: before) cs
    else ofTextFrom (c :: before) cs
  termination_by text.length

/-- The passages of a text. -/
def ofText (text : Text) : List Passage :=
  ofTextFrom [] text

end Passage

end RadixCalc
