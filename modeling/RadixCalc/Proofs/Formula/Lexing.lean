import RadixCalc.Formula.Builtin
import RadixCalc.Formula.Token.Lexer
import RadixCalc.Proofs.Answer.Reading
import RadixCalc.Proofs.Decimal.ReadingBack
import RadixCalc.Proofs.Decimal.ReadsOff

/-!
# Texts of tokens are read back

The lexer reads the longest token at the front of a text, so the text of a token is read back as
the token wherever what follows does not go on with it: behind a number no letter, no figure and no
point, behind an operator none of the six characters with which longer operators go on. Behind a
closing brace, a name in front of its parenthesis and a mark of punctuation anything may follow.

* `Token.isLexeme_of_ofText` says what the lexer yields: no number with a sign, and only names that
  can stand in braces.
* `Token.ofTextFrom_number`, `Token.ofTextFrom_placeholder`, `Token.ofTextFrom_name`,
  `Token.ofTextFrom_operator` and `Token.ofTextFrom_punctuation` read one token back, each in front
  of any text that does not go on with it.
-/

namespace RadixCalc

/-! ## Numbers without a sign -/

namespace Double

/-- A number that can be written without a minus: a finite one or the infinity. -/
def IsUnsigned (x : Double) : Prop :=
  x = infinity false ∨ ∃ rank, x = finite false rank

theorem IsUnsigned.exists_rank {x : Double} (hx : x.IsUnsigned) (hfinite : x.isFinite = true) :
    ∃ rank, x = finite false rank := by
  rcases hx with rfl | h
  · cases hfinite
  · exact h

theorem isUnsigned_ofUnits (num den : ℕ) : (ofUnits false num den).IsUnsigned := by
  rw [ofUnits, ofRank]
  split
  · exact .inr ⟨_, rfl⟩
  · exact .inl rfl

theorem isUnsigned_zero : (zero false).IsUnsigned := .inr ⟨_, rfl⟩

theorem isUnsigned_ofNat (n : ℕ) : (ofNat n).IsUnsigned := isUnsigned_ofUnits _ _

theorem isUnsigned_ofDecimal (coefficient : ℕ) (exponent : ℤ) :
    (ofDecimal false coefficient exponent).IsUnsigned := by
  unfold ofDecimal
  split_ifs
  · exact isUnsigned_zero
  · exact .inl rfl
  · exact isUnsigned_ofUnits _ _
  · exact isUnsigned_zero
  · exact isUnsigned_ofUnits _ _

theorem IsUnsigned.add {x y : Double} (hx : x.IsUnsigned) (hy : y.IsUnsigned) :
    (x + y).IsUnsigned := by
  rcases hx with rfl | ⟨a, rfl⟩ <;> rcases hy with rfl | ⟨b, rfl⟩
  · exact .inl rfl
  · exact .inl rfl
  · exact .inl rfl
  · rw [finite_add_finite]
    split
    · exact isUnsigned_zero
    · have hsum : ¬signed false (unitsOfRank a) + signed false (unitsOfRank b) < 0 :=
        not_lt.2 (Int.natCast_nonneg (unitsOfRank a + unitsOfRank b))
      rw [decide_eq_false hsum]
      exact isUnsigned_ofUnits _ _

theorem IsUnsigned.mul {x : Double} (hx : x.IsUnsigned) {rank : Fin rankCount} (h : rank.val ≠ 0) :
    (x * finite false rank).IsUnsigned := by
  rcases hx with rfl | ⟨a, rfl⟩
  · rw [infinity_mul_finite _ _ _ h]
    exact .inl rfl
  · rw [finite_mul_finite]
    exact isUnsigned_ofUnits _ _

/-- What is accumulated from digits has no sign. -/
theorem isUnsigned_ofDigits (r : Radix) (ds : List ℕ) : (r.toDouble ds).IsUnsigned := by
  have hlt : r.value < 2 ^ 1024 :=
    (r.le_thirtySix.trans_lt (by decide : 36 < 2 ^ 6)).trans
      (pow_lt_pow_right₀ one_lt_two (by decide))
  have hle : 36 ≤ 2 * binadeSize := by decide
  obtain ⟨rank, hrank, hunits⟩ := (isShort_of_le (r.le_thirtySix.trans hle)).exists_ofNat hlt
  have hne : rank.val ≠ 0 := by
    apply rank_ne_zero
    rw [hunits]
    exact Nat.mul_ne_zero (by have := r.two_le; omega) unitsPerOne_pos.ne'
  unfold Radix.toDouble ofDigits
  rw [hrank]
  induction ds using List.reverseRecOn with
  | nil => exact isUnsigned_zero
  | append_singleton ds d ih =>
    rw [List.foldl_append]
    exact (ih.mul hne).add (isUnsigned_ofNat d)

end Double

/-! ## What the lexer yields -/

namespace Token

/-- The name of a variable as it can stand in braces. -/
def IsName (name : Text) : Prop :=
  ∃ c cs, name = c :: cs ∧ Text.isAlphabetic c = true ∧ ∀ d ∈ cs, isNameChar d = true

/-- A token that the lexer can yield. -/
def IsLexeme : Token → Prop
  | number v => v.IsUnsigned
  | placeholder name => IsName name
  | word _ => True
  | symbol _ => True

theorem isLexeme_of_readPlaceholder? {text rest : Text} {t : Token}
    (h : readPlaceholder? text = some (t, rest)) : t.IsLexeme := by
  unfold readPlaceholder? at h
  split at h
  · cases h
  · next c cs =>
    split at h
    · next hc =>
      split at h
      · cases h
        exact ⟨c, _, rfl, hc, fun d hd => List.mem_takeWhile_imp hd⟩
      · cases h
    · cases h

theorem isLexeme_readNumber (text : Text) : (readNumber text).1.IsLexeme := by
  unfold readNumber
  split
  · next value rest hprefixed =>
    unfold readPrefixed? at hprefixed
    split at hprefixed
    · split at hprefixed
      · cases hprefixed
      · split at hprefixed
        · cases hprefixed
        · cases hprefixed
          exact Double.isUnsigned_ofDigits _ _
    · cases hprefixed
  · exact Double.isUnsigned_ofDecimal _ _

/-- Each of the four readers that a token can come from yields such a token. -/
theorem isLexeme_of_read? {text rest : Text} {t : Token} (h : read? text = some (t, rest)) :
    t.IsLexeme := by
  unfold read? at h
  split at h
  · cases h
  · next c cs =>
    split_ifs at h
    · exact isLexeme_of_readPlaceholder? h
    · have ht : (readNumber (c :: cs)).1 = t := congrArg Prod.fst (Option.some.inj h)
      rw [← ht]
      exact isLexeme_readNumber _
    · cases h
      trivial
    · obtain ⟨s, -, heq⟩ := Option.map_eq_some_iff.1 h
      cases heq
      trivial

theorem isLexeme_of_ofTextFrom {before ts : List Token} {text : Text}
    (hbefore : ∀ t ∈ before, t.IsLexeme) (h : ofTextFrom before text = .ok ts) :
    ∀ t ∈ ts, t.IsLexeme := by
  fun_induction ofTextFrom before text with
  | case1 before =>
    cases h
    intro t ht
    exact hbefore t (List.mem_reverse.1 ht)
  | case2 before c cs hblank ih => exact ih hbefore h
  | case3 before c cs hblank token rest hread hlt ih =>
    refine ih ?_ h
    intro t ht
    rcases List.mem_cons.1 ht with rfl | ht
    · exact isLexeme_of_read? hread
    · exact hbefore t ht
  | case4 before c cs hblank hread => cases h

/-- The lexer yields no number with a sign, and no name that could not stand in braces. -/
theorem isLexeme_of_ofText {ts : List Token} {text : Text} (h : ofText text = .ok ts) :
    ∀ t ∈ ts, t.IsLexeme :=
  isLexeme_of_ofTextFrom (fun _ ht => absurd ht List.not_mem_nil) h

end Token

/-! ## Characters -/

theorem isBlank_of_isAlphanum {c : Char} (h : c.isAlphanum = true) : Text.isBlank c = false := by
  have hranges : ∀ range ∈ Text.blankRanges, range.2 < 48 ∨ 122 < range.1 := by decide
  obtain ⟨hlow, hhigh⟩ := toNat_of_isAlphanum h
  rw [Text.isBlank, Text.inRanges, List.any_eq_false]
  intro range hrange hmem
  rw [Bool.and_eq_true, decide_eq_true_iff, decide_eq_true_iff] at hmem
  have := hranges range hrange
  omega

theorem isAlphanum_of_isDigit {c : Char} (h : c.isDigit = true) : c.isAlphanum = true := by
  rw [Char.isAlphanum, h, Bool.or_true]

namespace Token

/-! ## One token -/

section One

variable {before : List Token}

/-- Behind a token the text is read on from where the token ends. -/
theorem ofTextFrom_cons {c : Char} {cs rest : Text} {t : Token} (hblank : Text.isBlank c = false)
    (h : read? (c :: cs) = some (t, rest)) :
    ofTextFrom before (c :: cs) = ofTextFrom (t :: before) rest := by
  rw [ofTextFrom, if_neg (by simp [hblank])]
  split
  · next hread =>
    rw [h] at hread
    cases hread
    rfl
  · next hread =>
    rw [h] at hread
    cases hread

/-! ### Variables and names of functions -/

theorem ofTextFrom_placeholder {name : Text} (hname : IsName name) (rest : Text) :
    ofTextFrom before (inBraces name ++ rest) = ofTextFrom (.placeholder name :: before) rest := by
  obtain ⟨c, cs, rfl, hc, hcs⟩ := hname
  obtain ⟨htake, hdrop⟩ : (cs ++ '\x7d' :: rest).takeWhile isNameChar = cs ∧
      (cs ++ '\x7d' :: rest).dropWhile isNameChar = '\x7d' :: rest :=
    Text.span_append hcs (by rintro _ ⟨⟩; decide)
  have hshape : inBraces (c :: cs) ++ rest = '\x7b' :: c :: (cs ++ '\x7d' :: rest) := by
    simp [inBraces]
  rw [hshape]
  apply ofTextFrom_cons (by decide)
  rw [read?, if_pos rfl, readPlaceholder?, if_pos hc, hdrop, htake]
  rfl

theorem exists_cons_name (f : Builtin) :
    ∃ c cs, f.name = c :: cs ∧ Text.isBlank c = false ∧ c.isAlphanum = true := by
  cases f <;> exact ⟨_, _, rfl, rfl, rfl⟩

theorem read?_name (f : Builtin) (rest : Text) :
    read? (f.name ++ '(' :: rest) = some (.word f.name, '(' :: rest) := by
  cases f <;> rfl

/-- The name of a function is read back in front of a parenthesis. -/
theorem ofTextFrom_name (f : Builtin) (rest : Text) :
    ofTextFrom before (f.name ++ (Symbol.openParen.toText ++ rest)) =
      ofTextFrom (.word f.name :: before) (Symbol.openParen.toText ++ rest) := by
  obtain ⟨c, cs, hname, hblank, -⟩ := exists_cons_name f
  have hread := read?_name f rest
  rw [hname, List.cons_append] at hread ⊢
  exact ofTextFrom_cons hblank hread

end One
end Token

/-! ## Symbols -/

namespace Symbol

/-- The characters with which longer spellings go on. -/
def extenders : Text := ['=', '<', '>', '&', '|', '*']

/-- The marks with which no longer spelling begins. -/
def punctuation : List Symbol := [question, colon, comma, openParen, closeParen]

theorem not_mem_extenders {c : Char} (h : c.isAlphanum = true) : c ∉ extenders := by
  intro hc
  have hnone : ∀ d ∈ extenders, d.isAlphanum = false := by simp [extenders]
  rw [hnone c hc] at h
  cases h

theorem exists_cons_toText (s : Symbol) :
    ∃ c cs, s.toText = c :: cs ∧ Text.isBlank c = false ∧ c.isAlphanum = false ∧ c ≠ '.' := by
  cases s <;> exact ⟨_, _, rfl, by decide⟩

theorem read?_punctuation {s : Symbol} (hs : s ∈ punctuation) (rest : Text) :
    read? (s.toText ++ rest) = some (s, rest) := by
  fin_cases hs <;> rfl

/-- A symbol is the longest one where no character follows that goes on with it. -/
theorem read?_toText (s : Symbol) {rest : Text} (h : ∀ c ∈ rest.head?, c ∉ extenders) :
    read? (s.toText ++ rest) = some (s, rest) := by
  cases rest with
  | nil => cases s <;> rfl
  | cons c cs =>
    have hc : c ∉ extenders := h c rfl
    simp only [extenders, List.mem_cons, List.not_mem_nil, or_false, not_or, ← ne_eq] at hc
    obtain ⟨h₁, h₂, h₃, h₄, h₅, h₆⟩ := hc
    cases s <;> simp [toText, read?, spellings, List.isPrefixOf?, h₁.symm, h₂.symm, h₃.symm,
      h₄.symm, h₅.symm, h₆.symm]

end Symbol

namespace Token

variable {before : List Token}

/-- No variable, number or name begins with the first character of a symbol. -/
theorem read?_symbol (s : Symbol) (rest : Text) :
    read? (s.toText ++ rest) =
      (Symbol.read? (s.toText ++ rest)).map fun (s, rest) => (symbol s, rest) := by
  cases s <;> rfl

theorem ofTextFrom_symbol {s : Symbol} {rest : Text}
    (h : Symbol.read? (s.toText ++ rest) = some (s, rest)) :
    ofTextFrom before (s.toText ++ rest) = ofTextFrom (.symbol s :: before) rest := by
  obtain ⟨c, cs, htext, hblank, -⟩ := s.exists_cons_toText
  have hread := read?_symbol s rest
  rw [h, htext, List.cons_append] at hread
  rw [htext, List.cons_append]
  exact ofTextFrom_cons hblank hread

/-- A mark of punctuation is read back in front of any text. -/
theorem ofTextFrom_punctuation {s : Symbol} (hs : s ∈ Symbol.punctuation) (rest : Text) :
    ofTextFrom before (s.toText ++ rest) = ofTextFrom (.symbol s :: before) rest :=
  ofTextFrom_symbol (Symbol.read?_punctuation hs rest)

/-- An operator is read back in front of a text that does not go on with it. -/
theorem ofTextFrom_operator (s : Symbol) {rest : Text}
    (h : ∀ c ∈ rest.head?, c ∉ Symbol.extenders) :
    ofTextFrom before (s.toText ++ rest) = ofTextFrom (.symbol s :: before) rest :=
  ofTextFrom_symbol (s.read?_toText h)

/-! ## Numbers -/

/-- A number ends in front of the text: neither a letter nor a figure nor a point follows. -/
def EndsNumber (rest : Text) : Prop :=
  ∀ c ∈ rest.head?, c.isAlphanum = false ∧ c ≠ '.'

theorem endsNumber_nil : EndsNumber [] := nofun

theorem endsNumber_symbol (s : Symbol) (rest : Text) : EndsNumber (s.toText ++ rest) := by
  obtain ⟨c, cs, htext, -, halnum, hpoint⟩ := s.exists_cons_toText
  rw [htext, List.cons_append]
  rintro _ ⟨⟩
  exact ⟨halnum, hpoint⟩

theorem EndsNumber.isDigit {rest : Text} (h : EndsNumber rest) :
    ∀ c ∈ rest.head?, c.isDigit = false := by
  intro c hc
  have halnum := (h c hc).1
  rw [Char.isAlphanum, Bool.or_eq_false_iff] at halnum
  exact halnum.2

theorem readExponent_of_endsNumber {rest : Text} (h : EndsNumber rest) :
    Numeral.readExponent rest = (0, rest) := by
  apply Numeral.readExponent_of_not
  rintro c hc (rfl | rfl)
  · cases (h _ hc).1
  · cases (h _ hc).1

/-- Figures with a point among them, or without, are read to their end. -/
theorem read_joinPoint {whole fraction rest : Text}
    (hdigits : ∀ c ∈ whole ++ fraction, c.isDigit = true) (h : EndsNumber rest) :
    Numeral.read (Decimal.joinPoint whole fraction ++ rest) = (⟨whole, fraction, 0⟩, rest) := by
  have hwhole : ∀ c ∈ whole, c.isDigit = true := fun c hc => hdigits c (List.mem_append_left _ hc)
  have hfraction : ∀ c ∈ fraction, c.isDigit = true :=
    fun c hc => hdigits c (List.mem_append_right _ hc)
  cases fraction with
  | nil =>
    have hpoint : Numeral.readFraction rest = ([], rest) :=
      Numeral.readFraction_of_ne fun hhead => (h _ hhead).2 rfl
    rw [Decimal.joinPoint_nil, Numeral.read, Numeral.readFigures_append hwhole h.isDigit]
    simp only [hpoint, readExponent_of_endsNumber h]
  | cons c cs =>
    have hpoint : Numeral.readFraction ('.' :: (c :: cs ++ rest)) = (c :: cs, rest) :=
      Numeral.readFigures_append hfraction h.isDigit
    rw [Decimal.joinPoint_cons, List.append_assoc, List.cons_append, Numeral.read,
      Numeral.readFigures_append hwhole (by rintro _ ⟨⟩; rfl)]
    simp only [hpoint, readExponent_of_endsNumber h]

theorem readPrefixed?_cons {c : Char} {text : Text}
    (h : ∀ d ∈ text.head?, Radix.ofLetter? d = none) : readPrefixed? (c :: text) = none := by
  unfold readPrefixed?
  split
  · next letter cs hcons =>
    cases hcons
    rw [h letter rfl]
  · rfl

/-- Behind the first figure of a decimal stands no letter that names a radix. -/
theorem ofLetter?_head?_joinPoint {whole fraction rest : Text}
    (hwhole : ∀ c ∈ whole, c.isDigit = true) (h : EndsNumber rest) :
    ∀ c ∈ (Decimal.joinPoint whole fraction ++ rest).head?, Radix.ofLetter? c = none := by
  intro c hc
  cases whole with
  | cons b bs =>
    obtain rfl : b = c := by cases fraction <;> exact Option.some.inj hc
    exact Radix.ofLetter?_of_isDigit (hwhole b List.mem_cons_self)
  | nil =>
    cases fraction with
    | nil => exact Radix.ofLetter?_of_not_isAlphanum (h c hc).1
    | cons d ds =>
      obtain rfl : '.' = c := Option.some.inj hc
      rfl

theorem startsNumber_cons {c : Char} (hc : c.isDigit = true) (text : Text) :
    startsNumber (c :: text) = true := by
  unfold startsNumber
  split
  · next heq =>
    obtain rfl := (List.cons.inj heq).1
    cases hc
  · next heq =>
    obtain rfl := (List.cons.inj heq).1
    exact hc
  · next heq => cases heq

/-- A number is read back in front of a text that does not go on with it. -/
theorem ofTextFrom_number {text rest : Text} {x : Double} (hx : Decimal.Spells text x)
    (h : EndsNumber rest) :
    ofTextFrom before (text ++ rest) = ofTextFrom (.number x :: before) rest := by
  obtain ⟨whole, fraction, rfl, hne, hdigits, hvalue⟩ := hx
  obtain ⟨c, cs, rfl⟩ := List.exists_cons_of_ne_nil hne
  have hc : c.isDigit = true := hdigits c (by simp)
  have hcons : Decimal.joinPoint (c :: cs) fraction ++ rest =
      c :: (Decimal.joinPoint cs fraction ++ rest) := by cases fraction <;> rfl
  have hread := read_joinPoint hdigits h
  have hprefixed : readPrefixed? (c :: (Decimal.joinPoint cs fraction ++ rest)) = none :=
    readPrefixed?_cons (ofLetter?_head?_joinPoint
      (fun d hd => hdigits d (List.mem_append_left _ (List.mem_cons_of_mem _ hd))) h)
  rw [hcons] at hread ⊢
  refine ofTextFrom_cons (isBlank_of_isAlphanum (isAlphanum_of_isDigit hc)) ?_
  have hbrace : c ≠ '\x7b' := by
    rintro rfl
    cases hc
  rw [read?, if_neg hbrace, if_pos (startsNumber_cons hc _), readNumber, hprefixed, hread]
  simp only [Numeral.toDouble, zero_sub, hvalue]

end Token
end RadixCalc
