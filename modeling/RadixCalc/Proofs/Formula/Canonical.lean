import RadixCalc.Formula.Parser
import RadixCalc.Proofs.Formula.Lexemes

/-!
# One text for every list of tokens

Formulas that differ in their blanks, in the case of their letters, in the spelling of an operator
or in the way a number is written have the same tokens. The text of the tokens is one of these
formulas, in which each token has one spelling and one space parts it from the next: it has the same
tokens again. The infinity is the exception. It is what a literal too great for a double is read
as, and its text is a word.

* `Token.IsWord` is what the lexer yields as the name of a function.
* `Token.ofTextFrom_toText_append` reads one token back in front of a space, and
  `Token.ofText_listText_eq` a list of them.
* `Token.ofText_listText` is the result, for the tokens and for the formula.
-/

namespace RadixCalc

namespace Token

/-! ## Small letters -/

theorem isWordChar_of_isWordStart {c : Char} (h : isWordStart c = true) : isWordChar c = true := by
  simp only [isWordStart, isWordChar, Char.isAlphanum, Bool.or_eq_true] at h ⊢
  exact h.imp_left .inl

theorem toNat_lt_of_isWordChar {c : Char} (h : isWordChar c = true) : c.toNat < 123 := by
  rw [isWordChar, Bool.or_eq_true, beq_iff_eq] at h
  rcases h with h | rfl
  · exact Nat.lt_succ_of_le (toNat_of_isAlphanum h).2
  · decide

/-- Made small, a character of a name is still one, and of the same kind. -/
theorem isWordChar_toLower {c : Char} (h : isWordChar c = true) :
    isWordChar c.toLower = true ∧ c.toLower.toLower = c.toLower ∧
      (isWordStart c = true → isWordStart c.toLower = true) := by
  have hcodes : ∀ n < 123, isWordChar (Char.ofNat n) = true →
      isWordChar (Char.ofNat n).toLower = true ∧
        (Char.ofNat n).toLower.toLower = (Char.ofNat n).toLower ∧
        (isWordStart (Char.ofNat n) = true → isWordStart (Char.ofNat n).toLower = true) := by
    decide
  have hcode := hcodes c.toNat (toNat_lt_of_isWordChar h)
  rw [Char.ofNat_toNat] at hcode
  exact hcode h

/-! ## Names of functions -/

/-- The name of a function as the lexer yields it: a letter or an underscore, and letters, figures
and underscores behind it, all letters small. -/
structure IsWord (name : Text) : Prop where
  start : ∃ c cs, name = c :: cs ∧ isWordStart c = true
  char : ∀ c ∈ name, isWordChar c = true
  small : ∀ c ∈ name, c.toLower = c

theorem isWord_map_toLower {c : Char} {cs : Text} (hc : isWordStart c = true)
    (hcs : ∀ d ∈ cs, isWordChar d = true) : IsWord ((c :: cs).map Char.toLower) := by
  have hall : ∀ d ∈ c :: cs, isWordChar d = true :=
    List.forall_mem_cons.2 ⟨isWordChar_of_isWordStart hc, hcs⟩
  refine ⟨⟨c.toLower, cs.map Char.toLower, rfl, ?_⟩, ?_, ?_⟩
  · exact (isWordChar_toLower (isWordChar_of_isWordStart hc)).2.2 hc
  · exact List.forall_mem_map.2 fun d hd => (isWordChar_toLower (hall d hd)).1
  · exact List.forall_mem_map.2 fun d hd => (isWordChar_toLower (hall d hd)).2.1

theorem exists_readNumber (text : Text) : ∃ v rest, readNumber text = (number v, rest) := by
  cases h : readPrefixed? text with
  | some found => exact ⟨_, _, readNumber_of_some h⟩
  | none => exact ⟨_, _, readNumber_of_none h⟩

theorem isWord_of_read? {text rest name : Text} (h : read? text = some (word name, rest)) :
    IsWord name := by
  unfold read? at h
  split at h
  · cases h
  · next c cs =>
    split_ifs at h with hbrace hnumber hword
    · obtain ⟨_, _, _, _, _, ht⟩ := readPlaceholder?_eq_some_iff.1 h
      cases ht
    · obtain ⟨v, rest, hv⟩ := exists_readNumber (c :: cs)
      rw [Option.some.inj h] at hv
      cases hv
    · have hname := congrArg Prod.fst (Option.some.inj h)
      rw [readWord, List.takeWhile_cons_of_pos (isWordChar_of_isWordStart hword)] at hname
      cases hname
      exact isWord_map_toLower hword fun d hd => List.mem_takeWhile_imp hd
    · obtain ⟨s, -, heq⟩ := Option.map_eq_some_iff.1 h
      cases heq

/-! ## One token in front of a space -/

/-- A name begins with no blank, no brace, no figure and no point. -/
theorem isWordStart_kind {c : Char} (h : isWordStart c = true) :
    Text.isBlank c = false ∧ c ≠ '\x7b' ∧ c.isDigit = false ∧ c ≠ '.' := by
  have hcodes : ∀ n < 123, isWordStart (Char.ofNat n) = true →
      Text.isBlank (Char.ofNat n) = false ∧ Char.ofNat n ≠ '\x7b' ∧
        (Char.ofNat n).isDigit = false ∧ Char.ofNat n ≠ '.' := by
    decide
  have hcode := hcodes c.toNat (toNat_lt_of_isWordChar (isWordChar_of_isWordStart h))
  rw [Char.ofNat_toNat] at hcode
  exact hcode h

/-- A name in any letters is read in small ones, in front of a text that does not go on with it. -/
theorem read?_word_append {name rest : Text}
    (hstart : ∃ c cs, name = c :: cs ∧ isWordStart c = true)
    (hname : ∀ c ∈ name, isWordChar c = true) (hrest : ∀ c ∈ rest.head?, isWordChar c = false) :
    read? (name ++ rest) = some (word (name.map Char.toLower), rest) := by
  obtain ⟨htake, hdrop⟩ : (name ++ rest).takeWhile isWordChar = name ∧
      (name ++ rest).dropWhile isWordChar = rest := Text.span_append hname hrest
  obtain ⟨c, cs, rfl, hc⟩ := hstart
  obtain ⟨-, hbrace, hdigit, hpoint⟩ := isWordStart_kind hc
  have hnumber : startsNumber (c :: (cs ++ rest)) = false := by
    rw [← Bool.not_eq_true, startsNumber_iff]
    rintro ⟨d, ds, hd, heq | heq⟩
    · rw [(List.cons.inj heq).1, hd] at hdigit
      cases hdigit
    · exact hpoint (List.cons.inj heq).1
  rw [List.cons_append, read?_of_word hbrace hnumber hc, ← List.cons_append, readWord, htake, hdrop]

theorem IsWord.read?_append {name rest : Text} (hname : IsWord name)
    (hrest : ∀ c ∈ rest.head?, c = ' ') : read? (name ++ rest) = some (word name, rest) := by
  have hsmall : name.map Char.toLower = name :=
    (List.map_congr_left hname.small).trans (List.map_id _)
  have hread := read?_word_append hname.start hname.char fun c hc => by rw [hrest c hc]; rfl
  rwa [hsmall] at hread

/-- A token that the lexer can yield. -/
def IsRead (t : Token) : Prop :=
  ∃ lexeme rest, read? lexeme = some (t, rest)

/-- The token that the text of a token spells: the text of the infinity is a word. -/
def reread : Token → Token
  | number (.infinity negative) => word (Double.infinityText negative)
  | t => t

/-- Nothing follows, or a space does. -/
def EndsToken (rest : Text) : Prop :=
  ∀ c ∈ rest.head?, c = ' '

theorem EndsToken.endsNumber {rest : Text} (h : EndsToken rest) : EndsNumber rest := by
  intro c hc
  rw [h c hc]
  decide

theorem EndsToken.not_mem_extenders {rest : Text} (h : EndsToken rest) :
    ∀ c ∈ rest.head?, c ∉ Symbol.extenders := by
  intro c hc
  rw [h c hc]
  decide

theorem isWord_infinityText : IsWord (Double.infinityText false) := by
  have htext : Double.infinityText false = (['i', 'n', 'f'] : Text).map Char.toLower := rfl
  rw [htext]
  exact isWord_map_toLower rfl (List.forall_mem_cons.2 ⟨rfl, List.forall_mem_singleton.2 rfl⟩)

section Reading

variable {before : List Token} {rest : Text} (hrest : EndsToken rest)

include hrest

theorem ofTextFrom_word {name : Text} (hname : IsWord name) :
    ofTextFrom before (name ++ rest) = ofTextFrom (word name :: before) rest := by
  have hread := hname.read?_append hrest
  obtain ⟨c, cs, rfl, hc⟩ := hname.start
  exact ofTextFrom_cons (isWordStart_kind hc).1 hread

/-- The text of a token is read as one token in front of a space. -/
theorem ofTextFrom_toText_append {t : Token} (ht : t.IsRead) :
    ofTextFrom before (t.toText ++ rest) = ofTextFrom (t.reread :: before) rest := by
  obtain ⟨lexeme, behind, hread⟩ := ht
  have hlexeme := isLexeme_of_read? hread
  cases t with
  | number v =>
    rcases hlexeme with rfl | ⟨rank, rfl⟩
    · exact ofTextFrom_word hrest isWord_infinityText
    · exact ofTextFrom_number (Double.spells_toText rank) hrest.endsNumber
  | placeholder name => exact ofTextFrom_placeholder hlexeme rest
  | word name => exact ofTextFrom_word hrest (isWord_of_read? hread)
  | symbol s => exact ofTextFrom_operator s hrest.not_mem_extenders

end Reading

/-! ## Lists of tokens -/

/-- The text of a list of tokens is read token by token. -/
theorem ofTextFrom_listText {ts : List Token} (hts : ∀ t ∈ ts, t.IsRead) (before : List Token) :
    ofTextFrom before (listText ts) = .ok (before.reverse ++ ts.map reread) := by
  induction ts generalizing before with
  | nil => rw [listText, List.map_nil, List.intercalate_nil, ofTextFrom_nil, List.map_nil,
      List.append_nil]
  | cons t ts ih =>
    obtain ⟨ht, hts⟩ := List.forall_mem_cons.1 hts
    cases ts with
    | nil =>
      have hends : EndsToken [] := nofun
      have hone : ofTextFrom before (t.toText ++ []) = ofTextFrom (t.reread :: before) [] :=
        ofTextFrom_toText_append hends ht
      rw [List.append_nil] at hone
      rw [listText, List.map_singleton, List.intercalate_singleton, hone, ofTextFrom_nil]
      simp
    | cons t' ts =>
      have hshape : listText (t :: t' :: ts) = t.toText ++ ' ' :: listText (t' :: ts) := by
        simp [listText, List.intercalate_cons_cons]
      rw [hshape, ofTextFrom_toText_append (by rintro _ ⟨⟩; rfl) ht,
        ofTextFrom_blank (by decide), ih hts]
      simp

theorem Spelled.isRead {text : Text} {ts : List Token} (h : Spelled text ts) :
    ∀ t ∈ ts, t.IsRead := by
  induction h with
  | nil => exact nofun
  | blank _ _ ih => exact ih
  | token hlexeme _ ih => exact List.forall_mem_cons.2 ⟨⟨_, _, hlexeme.read?⟩, ih⟩

theorem isRead_of_ofText {text : Text} {ts : List Token} (h : ofText text = .ok ts) :
    ∀ t ∈ ts, t.IsRead := by
  rcases ofTextFrom_cases [] text with ⟨ts', hok, hspelled⟩ | ⟨_, _, _, _, herror, -, -⟩
  · rw [← ofText, h] at hok
    cases hok
    exact hspelled.isRead
  · rw [← ofText, h] at herror
    cases herror

/-- The text of the tokens of a text has the same tokens, but for the infinity. -/
theorem ofText_listText_eq {text : Text} {ts : List Token} (h : ofText text = .ok ts) :
    ofText (listText ts) = .ok (ts.map reread) :=
  ofTextFrom_listText (isRead_of_ofText h) []

theorem reread_eq_self_iff {t : Token} :
    t.reread = t ↔ ∀ negative, t ≠ number (.infinity negative) := by
  unfold reread
  split
  · next negative => exact iff_of_false nofun fun h => h negative rfl
  · next h => exact iff_of_true rfl h

/-- The text of the tokens of a text is read as the same tokens exactly where no literal of the text
was too great for a double, and then it is the same formula or fails in the same way. -/
theorem ofText_listText {text : Text} {ts : List Token} (h : ofText text = .ok ts) :
    (ofText (listText ts) = .ok ts ↔ ∀ negative, number (.infinity negative) ∉ ts) ∧
    ((∀ negative, number (.infinity negative) ∉ ts) →
      Formula.ofText (listText ts) = Formula.ofText text) := by
  have hsame : ofText (listText ts) = .ok ts ↔ ∀ negative, number (.infinity negative) ∉ ts := by
    have hmap : ts.map reread = ts ↔ ∀ t ∈ ts, t.reread = t := by
      conv_lhs => rw [← List.map_id ts, List.map_map]
      exact List.map_inj_left
    rw [ofText_listText_eq h, Except.ok.injEq, hmap]
    simp only [reread_eq_self_iff]
    constructor
    · intro hne negative hmem
      exact hne _ hmem negative rfl
    · rintro hnone t ht negative rfl
      exact hnone negative ht
  refine ⟨hsame, fun hfinite => ?_⟩
  rw [Formula.ofText, Formula.ofText, hsame.2 hfinite, h]

/-- A comparison with a number in base 16, a power and a variable, all in other spellings. -/
theorem ofText_listText_hexadecimal :
    ofText "0XfF**2e0<>\x7ba\x7d".toList =
      .ok [.number (.ofNat 255), .symbol .caret, .number (.ofNat 2), .symbol .notEqual,
        .placeholder ['a']] ∧
    ofText "255 ^ 2 != \x7ba\x7d".toList =
      .ok [.number (.ofNat 255), .symbol .caret, .number (.ofNat 2), .symbol .notEqual,
        .placeholder ['a']] ∧
    Formula.ofText "255 ^ 2 != \x7ba\x7d".toList =
      Formula.ofText "0XfF**2e0<>\x7ba\x7d".toList := by
  have htokens : ofText "0XfF**2e0<>\x7ba\x7d".toList =
      .ok [.number (.ofNat 255), .symbol .caret, .number (.ofNat 2), .symbol .notEqual,
        .placeholder ['a']] := by decide +kernel
  have htext : listText [.number (.ofNat 255), .symbol .caret, .number (.ofNat 2),
      .symbol .notEqual, .placeholder ['a']] = "255 ^ 2 != \x7ba\x7d".toList := by decide +kernel
  obtain ⟨hsame, hformula⟩ := ofText_listText htokens
  rw [htext] at hsame hformula
  have hfinite : ∀ negative, number (.infinity negative) ∉
      [.number (.ofNat 255), .symbol .caret, .number (.ofNat 2), .symbol .notEqual,
        .placeholder ['a']] := by decide +kernel
  exact ⟨htokens, hsame.2 hfinite, hformula hfinite⟩

end Token
end RadixCalc
