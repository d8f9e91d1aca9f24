import RadixCalc.Proofs.Worksheet.Filling

/-!
# What a formula in a text spells

A formula spells a directive, an equals sign and an expression between braces. The directive is
empty or begins with a percent sign, and within the expression braces enclose names only; so an
expression is read item by item, and it ends at the first brace that closes none of its own.

* `Passage.DirectiveMark` and `Passage.Enclosable` are the grammar of the two parts, and
  `Passage.Broken` is what keeps an expression from being closed.
* `Passage.readExpression?_append` reads an expression in front of any text.
* `Passage.formulaAt?_cases` says that a formula is recognised at a place exactly where the grammar
  has one, and that there is one at most.
-/

namespace RadixCalc.Passage

/-! ## Grammar -/

/-- The text has no braces. -/
def NoBraces (text : Text) : Prop :=
  ∀ c ∈ text, c ≠ '\x7b' ∧ c ≠ '\x7d'

/-- What may stand in front of the equals sign. -/
inductive DirectiveMark : Text → Prop
  | absent : DirectiveMark []
  | percent {text : Text} (h : ∀ c ∈ text, c ≠ '\x7b' ∧ c ≠ '\x7d' ∧ c ≠ '=') :
    DirectiveMark ('%' :: text)

/-- What may stand between the equals sign and the closing brace: characters that are no braces, and
braces around at least one such character. -/
inductive Enclosable : Text → Prop
  | nil : Enclosable []
  | char {c : Char} {behind : Text} (hc : c ≠ '\x7b' ∧ c ≠ '\x7d') (h : Enclosable behind) :
    Enclosable (c :: behind)
  | group {name behind : Text} (hne : name ≠ []) (hname : NoBraces name) (h : Enclosable behind) :
    Enclosable ('\x7b' :: (name ++ '\x7d' :: behind))

/-- What keeps an expression in front of it from being closed: the end of the text, braces around
nothing, and braces that are not closed before the text ends or another one opens. -/
inductive Broken : Text → Prop
  | ended : Broken []
  | empty (rest : Text) : Broken ('\x7b' :: '\x7d' :: rest)
  | unclosed {name : Text} (hname : NoBraces name) : Broken ('\x7b' :: name)
  | nested {name : Text} (hname : NoBraces name) (rest : Text) :
    Broken ('\x7b' :: (name ++ '\x7b' :: rest))

/-- The characters from `i` up to `stop` spell a formula. -/
structure IsSpan (text : Text) (i : ℕ) (directive expression : Text) (stop : ℕ) : Prop where
  stop_le : stop ≤ text.length
  spelled : (text.take stop).drop i =
    '\x7b' :: (directive ++ '=' :: (expression ++ ['\x7d']))
  directiveMark : DirectiveMark directive
  enclosable : Enclosable expression

/-! ## Parts of a formula -/

theorem isPlain_iff {c : Char} : isPlain c = true ↔ c ≠ '\x7b' ∧ c ≠ '\x7d' := by
  simp [isPlain]

theorem isDirectiveChar_iff {c : Char} :
    isDirectiveChar c = true ↔ c ≠ '\x7b' ∧ c ≠ '\x7d' ∧ c ≠ '=' := by
  simp [isDirectiveChar, isPlain, and_assoc]

theorem NoBraces.isPlain {text : Text} (h : NoBraces text) : ∀ c ∈ text, isPlain c = true :=
  fun c hc => isPlain_iff.2 (h c hc)

theorem noBraces_takeWhile (text : Text) : NoBraces (text.takeWhile Passage.isPlain) := by
  intro c hc
  exact isPlain_iff.1 (List.mem_takeWhile_imp hc)

theorem readDirective_append_equals {directive : Text} (h : DirectiveMark directive)
    (behind : Text) : readDirective (directive ++ '=' :: behind) = (directive, '=' :: behind) := by
  cases h with
  | absent => rfl
  | percent h =>
    next text =>
    have hmark : ∀ c ∈ '%' :: text, isDirectiveChar c = true :=
      List.forall_mem_cons.2 ⟨rfl, fun c hc => isDirectiveChar_iff.2 (h c hc)⟩
    obtain ⟨htake, hdrop⟩ := @Text.span_append isDirectiveChar _ ('=' :: behind) hmark
      (by simp [isDirectiveChar])
    exact Prod.ext htake hdrop

theorem directiveMark_readDirective (text : Text) : DirectiveMark (readDirective text).1 := by
  unfold readDirective
  split
  · next behind =>
    rw [List.takeWhile_cons_of_pos rfl]
    exact .percent fun c hc => isDirectiveChar_iff.1 (List.mem_takeWhile_imp hc)
  · exact .absent

theorem readInner?_append {name : Text} (hne : name ≠ []) (hname : NoBraces name) (rest : Text) :
    readInner? (name ++ '\x7d' :: rest) = some (name ++ ['\x7d'], rest) := by
  obtain ⟨htake, hdrop⟩ := @Text.span_append Passage.isPlain _ ('\x7d' :: rest) hname.isPlain
    (by simp [Passage.isPlain])
  unfold readInner?
  rw [htake, hdrop]
  cases name with
  | nil => exact absurd rfl hne
  | cons c cs => rfl

theorem exists_of_readInner? {text inner rest : Text} (h : readInner? text = some (inner, rest)) :
    ∃ name, name ≠ [] ∧ NoBraces name ∧ inner = name ++ ['\x7d'] := by
  have hplain := noBraces_takeWhile text
  unfold readInner? at h
  split at h
  · cases h
  · next hne =>
    cases h
    exact ⟨_, hne, hplain, rfl⟩
  · cases h

/-- A name is not read unless a closing brace follows it. -/
theorem readInner?_of_not_close {name rest : Text} (hname : NoBraces name)
    (hrest : ∀ c ∈ rest.head?, c = '\x7b') : readInner? (name ++ rest) = none := by
  have hopen : ∀ c ∈ rest.head?, Passage.isPlain c = false := by
    intro c hc
    rw [hrest c hc]
    rfl
  obtain ⟨htake, hdrop⟩ := Text.span_append hname.isPlain hopen
  unfold readInner?
  rw [htake, hdrop]
  split
  · rfl
  · cases hrest '\x7d' rfl
  · rfl

/-- Braces that are broken are not read. -/
theorem readInner?_of_broken {text : Text} (h : Broken ('\x7b' :: text)) :
    readInner? text = none := by
  generalize hbraces : '\x7b' :: text = braces at h
  cases h with
  | ended => cases hbraces
  | empty rest =>
    cases hbraces
    rfl
  | unclosed hname =>
    cases hbraces
    rw [← List.append_nil text]
    exact readInner?_of_not_close hname nofun
  | nested hname rest =>
    cases hbraces
    exact readInner?_of_not_close hname (by simp)

/-- An opening brace that opens no group is broken. -/
theorem broken_of_readInner? {text : Text} (h : readInner? text = none) :
    Broken ('\x7b' :: text) := by
  have hplain := noBraces_takeWhile text
  have hsplit := List.takeWhile_append_dropWhile (p := Passage.isPlain) (l := text)
  cases hdrop : text.dropWhile Passage.isPlain with
  | nil =>
    rw [hdrop, List.append_nil] at hsplit
    exact .unclosed (hsplit ▸ hplain)
  | cons c rest =>
    have hbrace : Passage.isPlain c = false := by
      refine @Text.of_mem_head?_dropWhile Passage.isPlain text c ?_
      rw [hdrop]
      rfl
    rw [hdrop] at hsplit
    rw [← hsplit] at h ⊢
    by_cases hopen : c = '\x7b'
    · rw [hopen]
      exact .nested hplain rest
    · obtain rfl : c = '\x7d' := by simpa [Passage.isPlain, hopen] using hbrace
      by_cases hname : text.takeWhile Passage.isPlain = []
      · rw [hname]
        exact .empty rest
      · rw [readInner?_append hname hplain] at h
        cases h

/-! ## Expressions -/

theorem readExpression?_close (rest : Text) :
    readExpression? ('\x7d' :: rest) = some ([], rest) := by
  rw [readExpression?, if_pos rfl]

/-- What may stand in an expression is read as a part of it, whatever follows. -/
theorem readExpression?_append {expression : Text} (h : Enclosable expression) (behind : Text) :
    readExpression? (expression ++ behind) =
      (readExpression? behind).map fun (more, rest) => (expression ++ more, rest) := by
  induction h with
  | nil => simp
  | char hc _ ih =>
    rw [List.cons_append, readExpression?, if_neg hc.2, if_neg hc.1, ih, Option.map_map]
    rfl
  | group hne hname _ ih =>
    next name tail _ =>
    have hinner := readInner?_append hne hname (tail ++ behind)
    rw [List.cons_append, List.append_assoc, List.cons_append, readExpression?,
      if_neg (by decide), if_pos rfl]
    split
    · next hnone =>
      rw [hinner] at hnone
      cases hnone
    · next heq =>
      rw [hinner] at heq
      cases heq
      rw [ih, Option.map_map]
      simp [Function.comp_def]

/-- A broken rest is not read. -/
theorem readExpression?_of_broken {text : Text} (h : Broken text) :
    readExpression? text = none := by
  cases text with
  | nil => rw [readExpression?]
  | cons c cs =>
    obtain rfl : c = '\x7b' := by cases h <;> rfl
    rw [readExpression?, if_neg (by decide), if_pos rfl]
    split
    · rfl
    · next heq =>
      rw [readInner?_of_broken h] at heq
      cases heq

/-- A text begins with an expression that is closed, or with one that is broken off. -/
theorem exists_enclosable (text : Text) :
    ∃ expression behind, text = expression ++ behind ∧ Enclosable expression ∧
      ((∃ rest, behind = '\x7d' :: rest) ∨ Broken behind) := by
  fun_induction readExpression? text with
  | case1 => exact ⟨[], [], rfl, .nil, .inr .ended⟩
  | case2 cs => exact ⟨[], '\x7d' :: cs, rfl, .nil, .inl ⟨cs, rfl⟩⟩
  | case3 cs h => exact ⟨[], _, rfl, .nil, .inr (broken_of_readInner? h)⟩
  | case4 cs inner behind hinner _ _ ih =>
    obtain ⟨expression, rest, rfl, hexpression, hrest⟩ := ih
    obtain ⟨name, hne, hname, rfl⟩ := exists_of_readInner? hinner
    refine ⟨'\x7b' :: (name ++ '\x7d' :: expression), rest, ?_, .group hne hname hexpression, hrest⟩
    rw [eq_append_of_readInner? hinner]
    simp
  | case5 c cs hclose hopen ih =>
    obtain ⟨expression, rest, rfl, hexpression, hrest⟩ := ih
    exact ⟨c :: expression, rest, rfl, .char ⟨hopen, hclose⟩ hexpression, hrest⟩

/-- An expression is read exactly where it is closed. -/
theorem readExpression?_eq_some_iff {text expression rest : Text} :
    readExpression? text = some (expression, rest) ↔
      text = expression ++ '\x7d' :: rest ∧ Enclosable expression := by
  constructor
  · intro h
    obtain ⟨expression', behind, rfl, hexpression, ⟨rest', rfl⟩ | hbroken⟩ := exists_enclosable text
    · rw [readExpression?_append hexpression, readExpression?_close] at h
      obtain ⟨rfl, rfl⟩ : expression' = expression ∧ rest' = rest := by simpa using h
      exact ⟨rfl, hexpression⟩
    · rw [readExpression?_append hexpression, readExpression?_of_broken hbroken] at h
      cases h
  · rintro ⟨rfl, h⟩
    rw [readExpression?_append h, readExpression?_close]
    simp

/-! ## Formulas -/

theorem readSpan?_eq_some_iff {text directive expression rest : Text} :
    readSpan? text = some (directive, expression, rest) ↔
      text = directive ++ '=' :: (expression ++ '\x7d' :: rest) ∧ DirectiveMark directive ∧
        Enclosable expression := by
  constructor
  · intro h
    have hsplit := readDirective_append text
    have hmark := directiveMark_readDirective text
    unfold readSpan? at h
    split at h
    · next d behind hdirective =>
      rw [hdirective] at hsplit hmark
      obtain ⟨⟨e, r⟩, he, heq⟩ := Option.map_eq_some_iff.1 h
      cases heq
      obtain ⟨rfl, hexpression⟩ := readExpression?_eq_some_iff.1 he
      exact ⟨hsplit.symm, hmark, hexpression⟩
    · cases h
  · rintro ⟨rfl, hmark, hexpression⟩
    unfold readSpan?
    rw [readDirective_append_equals hmark]
    simp only [readExpression?_eq_some_iff.2 ⟨rfl, hexpression⟩]
    rfl

theorem spanAt?_eq_some_iff {text directive expression rest : Text} {i : ℕ} :
    spanAt? text i = some (directive, expression, rest) ↔
      text.drop i = '\x7b' :: (directive ++ '=' :: (expression ++ ['\x7d'])) ++ rest ∧
        DirectiveMark directive ∧ Enclosable expression := by
  unfold spanAt?
  split
  · next behind hdrop =>
    rw [hdrop, readSpan?_eq_some_iff]
    simp
  · next hdrop =>
    refine iff_of_false nofun ?_
    rintro ⟨h, -⟩
    exact hdrop _ h

/-! ## Places -/

/-- A piece of a text behind `i`, by what stands behind it and by the place of its end. -/
theorem exists_drop_eq_append_iff (text : Text) {piece : Text} (hne : piece ≠ []) (i stop : ℕ) :
    (∃ rest, text.drop i = piece ++ rest ∧ text.length - rest.length = stop) ↔
      stop ≤ text.length ∧ (text.take stop).drop i = piece := by
  have hpos := List.length_pos_iff.2 hne
  constructor
  · rintro ⟨rest, hdrop, rfl⟩
    have hlength := congrArg List.length hdrop
    rw [List.length_drop, List.length_append] at hlength
    refine ⟨Nat.sub_le _ _, ?_⟩
    have hwidth : text.length - rest.length - i = piece.length := by omega
    rw [List.drop_take, hwidth, hdrop, List.take_left]
  · rintro ⟨hstop, hpiece⟩
    have hlength := congrArg List.length hpiece
    rw [List.length_drop, List.length_take, Nat.min_eq_left hstop] at hlength
    refine ⟨text.drop stop, ?_, ?_⟩
    · conv_lhs => rw [← List.take_append_drop stop text]
      rw [List.drop_append_of_le_length, hpiece]
      rw [List.length_take, Nat.min_eq_left hstop]
      omega
    · rw [List.length_drop]
      omega

/-- The formula that begins at a place of a text: its directive, its expression and the place behind
its closing brace. -/
def formulaAt? (text : Text) (i : ℕ) : Option (Text × Text × ℕ) :=
  (spanAt? text i).map fun (directive, expression, rest) =>
    (directive, expression, text.length - rest.length)

theorem formulaAt?_eq_some_iff_spanAt? {text directive expression : Text} {i stop : ℕ} :
    formulaAt? text i = some (directive, expression, stop) ↔
      ∃ rest, spanAt? text i = some (directive, expression, rest) ∧
        text.length - rest.length = stop := by
  unfold formulaAt?
  rw [Option.map_eq_some_iff]
  constructor
  · rintro ⟨⟨d, e, rest⟩, h, heq⟩
    cases heq
    exact ⟨rest, h, rfl⟩
  · rintro ⟨rest, h, rfl⟩
    exact ⟨_, h, rfl⟩

theorem formulaAt?_eq_some_iff {text directive expression : Text} {i stop : ℕ} :
    formulaAt? text i = some (directive, expression, stop) ↔
      IsSpan text i directive expression stop := by
  have hplace := exists_drop_eq_append_iff text
    (List.cons_ne_nil '\x7b' (directive ++ '=' :: (expression ++ ['\x7d']))) i stop
  rw [formulaAt?_eq_some_iff_spanAt?]
  simp only [spanAt?_eq_some_iff]
  constructor
  · rintro ⟨rest, ⟨hdrop, hmark, hexpression⟩, hstop⟩
    obtain ⟨hle, hspelled⟩ := hplace.1 ⟨rest, hdrop, hstop⟩
    exact ⟨hle, hspelled, hmark, hexpression⟩
  · rintro ⟨hle, hspelled, hmark, hexpression⟩
    obtain ⟨rest, hdrop, hstop⟩ := hplace.2 ⟨hle, hspelled⟩
    exact ⟨rest, ⟨hdrop, hmark, hexpression⟩, hstop⟩

theorem formulaAt?_of_broken {text directive expression behind : Text} {i : ℕ}
    (hmark : DirectiveMark directive) (hexpression : Enclosable expression)
    (hbroken : Broken behind)
    (hdrop : text.drop i = '\x7b' :: (directive ++ '=' :: (expression ++ behind))) :
    formulaAt? text i = none := by
  unfold formulaAt? spanAt?
  rw [hdrop]
  simp only [readSpan?, readDirective_append_equals hmark, readExpression?_append hexpression,
    readExpression?_of_broken hbroken, Option.map_none]

/-- A formula is recognised at a place exactly where the grammar has one, and it has one at most.
What is recognised ends where the text goes on to be read. An expression in which braces are nested,
enclose nothing or stay open is none. -/
theorem formulaAt?_cases (text : Text) (i : ℕ) :
    (∀ directive expression stop, formulaAt? text i = some (directive, expression, stop) ↔
      IsSpan text i directive expression stop) ∧
    (∀ directive expression stop directive' expression' stop',
      IsSpan text i directive expression stop → IsSpan text i directive' expression' stop' →
        directive = directive' ∧ expression = expression' ∧ stop = stop') ∧
    (∀ directive expression rest, spanAt? text i = some (directive, expression, rest) →
      ∃ stop, formulaAt? text i = some (directive, expression, stop) ∧ rest = text.drop stop) ∧
    (∀ directive expression behind, DirectiveMark directive → Enclosable expression →
      Broken behind → text.drop i = '\x7b' :: (directive ++ '=' :: (expression ++ behind)) →
        formulaAt? text i = none) := by
  refine ⟨fun _ _ _ => formulaAt?_eq_some_iff, ?_, ?_, fun _ _ _ => formulaAt?_of_broken⟩
  · intro directive expression stop directive' expression' stop' h h'
    have heq := (formulaAt?_eq_some_iff.2 h).symm.trans (formulaAt?_eq_some_iff.2 h')
    simpa using heq
  · intro directive expression rest h
    refine ⟨_, formulaAt?_eq_some_iff_spanAt?.2 ⟨rest, h, rfl⟩, ?_⟩
    obtain ⟨hdrop, -⟩ := spanAt?_eq_some_iff.1 h
    have hsuffix : rest <:+ text := (hdrop ▸ List.suffix_append _ _).trans (List.drop_suffix i text)
    exact List.suffix_iff_eq_drop.1 hsuffix

/-- Of two formulas in braces the first is one, and the second has braces around nothing. -/
theorem formulaAt?_cases_percent :
    formulaAt? "a \x7b%x=\x7bb\x7d+1\x7d \x7b=2*\x7b\x7d\x7d".toList 2 =
        some (['%', 'x'], ['\x7b', 'b', '\x7d', '+', '1'], 12) ∧
      formulaAt? "a \x7b%x=\x7bb\x7d+1\x7d \x7b=2*\x7b\x7d\x7d".toList 13 = none := by
  obtain ⟨hiff, -, -, -⟩ := formulaAt?_cases "a \x7b%x=\x7bb\x7d+1\x7d \x7b=2*\x7b\x7d\x7d".toList 2
  obtain ⟨-, -, -, hbroken⟩ :=
    formulaAt?_cases "a \x7b%x=\x7bb\x7d+1\x7d \x7b=2*\x7b\x7d\x7d".toList 13
  constructor
  · have hmark : DirectiveMark ['%', 'x'] := .percent (by simp)
    have hexpression : Enclosable ['\x7b', 'b', '\x7d', '+', '1'] :=
      @Enclosable.group ['b'] ['+', '1'] (by decide) (by simp [NoBraces])
        (.char (by decide) (.char (by decide) .nil))
    exact (hiff _ _ _).2 ⟨by simp, rfl, hmark, hexpression⟩
  · exact hbroken [] ['2', '*'] _ .absent (.char (by decide) (.char (by decide) .nil))
      (.empty ['\x7d']) (by decide)

end RadixCalc.Passage
