import RadixCalc.Proofs.Formula.Lexing

/-!
# Nothing of a text is lost

A token is cut out of a text that may go on with it: digits with more digits, an operator with the
second character of a longer one, a number with the beginning of an exponent. This file shows that
the cut is clean for every token, and so that each piece is the token it was read as when it stands
alone.

* `Token.readsOff_read?` is the clean cut, from one lemma for each reader that the reader of tokens
  calls.
* `Token.Spelled` says of a text that it is the lexemes of a list of tokens, with blanks between.
* `Token.StopsAt` says of a place in a text that no token begins there.
* `Token.ofText_cases`: a text is spelled by its tokens, or there is a first place at which no token
  begins, and the failure shows what stands there.
-/

namespace RadixCalc

namespace Token

/-! ## Numbers with a prefix -/

theorem readDigits_of_none {radix : Radix} {c : Char} (h : radix.digitValue? c = none) (cs : Text) :
    readDigits radix (c :: cs) = ([], c :: cs) := by
  rw [readDigits, h]

theorem readDigits_of_some {radix : Radix} {c : Char} {digit : ℕ}
    (h : radix.digitValue? c = some digit) (cs : Text) :
    readDigits radix (c :: cs) =
      (digit :: (readDigits radix cs).1, (readDigits radix cs).2) := by
  rw [readDigits, h]

/-- The run of digits ends where it ended, however little of what followed is left. -/
theorem readsOff_readDigits (radix : Radix) (text : Text) :
    ReadsOff (readDigits radix) (fun front => ((readDigits radix text).1, front)) text
      (readDigits radix text).2 := by
  induction text with
  | nil =>
    refine ⟨[], rfl, ?_⟩
    intro front hfront
    obtain rfl := List.prefix_nil.1 hfront
    rfl
  | cons c cs ih =>
    cases hdigit : radix.digitValue? c with
    | none =>
      rw [readDigits_of_none hdigit]
      refine ⟨[], rfl, ?_⟩
      intro front hfront
      cases front with
      | nil => rfl
      | cons d front =>
        obtain ⟨rfl, -⟩ := List.cons_prefix_cons.1 hfront
        exact readDigits_of_none hdigit front
    | some digit =>
      rw [readDigits_of_some hdigit]
      obtain ⟨lexeme, hsplit, hread⟩ := ih
      refine ⟨c :: lexeme, congrArg (c :: ·) hsplit, ?_⟩
      intro front hfront
      rw [List.cons_append, readDigits_of_some hdigit, hread front hfront]

theorem readDigits_of_nil {radix : Radix} {text rest : Text}
    (h : readDigits radix text = ([], rest)) : rest = text := by
  cases text with
  | nil =>
    cases h
    rfl
  | cons c cs =>
    cases hdigit : radix.digitValue? c with
    | none =>
      rw [readDigits_of_none hdigit] at h
      exact (congrArg Prod.snd h).symm
    | some digit =>
      rw [readDigits_of_some hdigit] at h
      cases h

theorem readPrefixed?_eq_some_iff {text rest : Text} {value : Double} :
    readPrefixed? text = some (value, rest) ↔
      ∃ letter cs radix ds, text = '0' :: letter :: cs ∧ Radix.ofLetter? letter = some radix ∧
        readDigits radix cs = (ds, rest) ∧ ds ≠ [] ∧ radix.toDouble ds = value := by
  constructor
  · intro h
    unfold readPrefixed? at h
    split at h
    · next letter cs =>
      split at h
      · cases h
      · next radix hradix =>
        split at h
        · cases h
        · next ds rest' hne hdigits =>
          cases h
          refine ⟨letter, cs, radix, ds, rfl, hradix, hdigits, ?_, rfl⟩
          rintro rfl
          exact hne rfl
    · cases h
  · rintro ⟨letter, cs, radix, ds, rfl, hradix, hdigits, hne, rfl⟩
    unfold readPrefixed?
    simp only [hradix, hdigits]

/-- A prefixed number is cut off with its prefix and its digits. -/
theorem readsOff_readPrefixed? {text rest : Text} {value : Double}
    (h : readPrefixed? text = some (value, rest)) :
    ReadsOff readPrefixed? (fun front => some (value, front)) text rest := by
  obtain ⟨letter, cs, radix, ds, rfl, hradix, hdigits, hne, hvalue⟩ := readPrefixed?_eq_some_iff.1 h
  have hreads := readsOff_readDigits radix cs
  rw [hdigits] at hreads
  obtain ⟨lexeme, rfl, hread⟩ := hreads
  refine ⟨'0' :: letter :: lexeme, rfl, ?_⟩
  intro front hfront
  exact readPrefixed?_eq_some_iff.2
    ⟨letter, lexeme ++ front, radix, ds, rfl, hradix, hread front hfront, hne, hvalue⟩

/-- A text without a prefixed number has none on any front. -/
theorem readPrefixed?_of_front {front text : Text} (hfront : front <+: text)
    (h : readPrefixed? text = none) : readPrefixed? front = none := by
  rw [Option.eq_none_iff_forall_ne_some] at h ⊢
  rintro ⟨value, rest⟩ hfound
  obtain ⟨letter, cs, radix, ds, rfl, hradix, hdigits, hne, -⟩ :=
    readPrefixed?_eq_some_iff.1 hfound
  obtain ⟨back, rfl⟩ := hfront
  have hreads := readsOff_readDigits radix (cs ++ back)
  cases hlonger : readDigits radix (cs ++ back) with
  | mk ds' rest' =>
    rw [hlonger] at hreads
    by_cases hnil : ds' = []
    · subst hnil
      obtain rfl := readDigits_of_nil hlonger
      have hcs := hreads.on_front (List.prefix_append cs back)
      rw [hdigits] at hcs
      exact hne (congrArg Prod.fst hcs)
    · exact h _ (readPrefixed?_eq_some_iff.2
        ⟨letter, cs ++ back, radix, ds', rfl, hradix, hlonger, hnil, rfl⟩)

/-! ## Numbers -/

theorem readNumber_of_some {text rest : Text} {value : Double}
    (h : readPrefixed? text = some (value, rest)) : readNumber text = (number value, rest) := by
  rw [readNumber, h]

theorem readNumber_of_none {text : Text} (h : readPrefixed? text = none) :
    readNumber text =
      (number ((Numeral.read text).1.toDouble false), (Numeral.read text).2) := by
  rw [readNumber, h]

/-- A number is cut off in either way of reading it, because what is no prefixed number does not
become one on a shorter text. -/
theorem readsOff_readNumber (text : Text) :
    ReadsOff readNumber (fun front => ((readNumber text).1, front)) text (readNumber text).2 := by
  cases hprefixed : readPrefixed? text with
  | some found =>
    obtain ⟨value, rest⟩ := found
    rw [readNumber_of_some hprefixed]
    obtain ⟨lexeme, hsplit, hread⟩ := readsOff_readPrefixed? hprefixed
    refine ⟨lexeme, hsplit, ?_⟩
    intro front hfront
    exact readNumber_of_some (hread front hfront)
  | none =>
    rw [readNumber_of_none hprefixed]
    obtain ⟨lexeme, hsplit, hread⟩ := Numeral.readsOff_read text
    refine ⟨lexeme, hsplit, ?_⟩
    intro front hfront
    have hnone : readPrefixed? (lexeme ++ front) = none := by
      refine readPrefixed?_of_front ?_ hprefixed
      rw [hsplit]
      exact (List.prefix_append_right_inj lexeme).2 hfront
    rw [readNumber_of_none hnone, hread front hfront]

theorem startsNumber_iff {text : Text} :
    startsNumber text = true ↔
      ∃ c cs, c.isDigit = true ∧ (text = c :: cs ∨ text = '.' :: c :: cs) := by
  constructor
  · intro h
    unfold startsNumber at h
    split at h
    · next c cs => exact ⟨c, cs, h, .inr rfl⟩
    · next c cs _ => exact ⟨c, cs, h, .inl rfl⟩
    · cases h
  · rintro ⟨c, cs, hc, rfl | rfl⟩
    · exact startsNumber_cons hc cs
    · exact hc

theorem startsNumber_append {front : Text} (h : startsNumber front = true) (back : Text) :
    startsNumber (front ++ back) = true := by
  obtain ⟨c, cs, hc, rfl | rfl⟩ := startsNumber_iff.1 h
  · exact startsNumber_iff.2 ⟨c, cs ++ back, hc, .inl rfl⟩
  · exact startsNumber_iff.2 ⟨c, cs ++ back, hc, .inr rfl⟩

theorem startsNumber_of_front {front text : Text} (hfront : front <+: text)
    (h : startsNumber text = false) : startsNumber front = false := by
  obtain ⟨back, rfl⟩ := hfront
  rw [← Bool.not_eq_true] at h ⊢
  intro hstarts
  exact h (startsNumber_append hstarts back)

/-- Of a number that begins with a point the figure behind it is read too. -/
theorem readNumber_point_suffix {c : Char} (hc : c.isDigit = true) (cs : Text) :
    (readNumber ('.' :: c :: cs)).2 <:+ cs := by
  have hfigures : Numeral.readFigures ('.' :: c :: cs) = ([], '.' :: c :: cs) := by
    simp [Numeral.readFigures]
  have hfraction : (Numeral.readFraction ('.' :: c :: cs)).2 = cs.dropWhile Char.isDigit := by
    simp [Numeral.readFraction, Numeral.readFigures, hc]
  show (Numeral.readExponent
    (Numeral.readFraction (Numeral.readFigures ('.' :: c :: cs)).2).2).2 <:+ cs
  rw [hfigures, hfraction]
  exact (Numeral.readExponent_suffix _).trans (List.dropWhile_suffix _)

/-- The lexeme of a number begins a number, whatever stood behind it. -/
theorem startsNumber_of_readNumber {lexeme rest : Text}
    (h : startsNumber (lexeme ++ rest) = true) (hrest : (readNumber (lexeme ++ rest)).2 = rest) :
    startsNumber lexeme = true := by
  obtain ⟨c, cs, hc, htext | htext⟩ := startsNumber_iff.1 h
  · have hlt := length_readNumber h
    rw [hrest, List.length_append] at hlt
    obtain ⟨d, lexeme, rfl⟩ := List.exists_cons_of_length_pos (by omega : 0 < lexeme.length)
    obtain ⟨rfl, -⟩ := List.cons.inj htext
    exact startsNumber_cons hc lexeme
  · have hsuffix := readNumber_point_suffix hc cs
    rw [← htext, hrest] at hsuffix
    obtain ⟨figures, rfl⟩ := hsuffix
    have hlexeme : lexeme = '.' :: c :: figures := List.append_cancel_right htext
    exact startsNumber_iff.2 ⟨c, figures, hc, .inr hlexeme⟩

/-! ## Variables -/

/-- A variable in braces begins with a letter and goes on with characters of names to its brace. -/
theorem readPlaceholder?_eq_some_iff {text rest : Text} {t : Token} :
    readPlaceholder? text = some (t, rest) ↔
      ∃ c cs, text = c :: cs ∧ Text.isAlphabetic c = true ∧
        cs.dropWhile isNameChar = '\x7d' :: rest ∧
        t = placeholder (c :: cs.takeWhile isNameChar) := by
  constructor
  · intro h
    unfold readPlaceholder? at h
    split at h
    · cases h
    · next c cs =>
      split at h
      · next hc =>
        split at h
        · next hdrop =>
          cases h
          exact ⟨c, cs, rfl, hc, hdrop, rfl⟩
        · cases h
      · cases h
  · rintro ⟨c, cs, rfl, hc, hdrop, rfl⟩
    simp only [readPlaceholder?, hc, hdrop, if_true]

theorem readsOff_readPlaceholder? {text rest : Text} {t : Token}
    (h : readPlaceholder? text = some (t, rest)) :
    ReadsOff readPlaceholder? (fun front => some (t, front)) text rest := by
  obtain ⟨c, cs, rfl, hc, hdrop, rfl⟩ := readPlaceholder?_eq_some_iff.1 h
  obtain ⟨name, hsplit, hspan⟩ := Text.readsOff_span isNameChar cs
  rw [hdrop] at hsplit hspan
  refine ⟨c :: name ++ ['\x7d'], ?_, ?_⟩
  · rw [hsplit, List.append_assoc]
    rfl
  · intro front hfront
    have hclosed := hspan ('\x7d' :: front) (List.cons_prefix_cons.2 ⟨rfl, hfront⟩)
    have htake : (name ++ '\x7d' :: front).takeWhile isNameChar = cs.takeWhile isNameChar :=
      congrArg Prod.fst hclosed
    refine readPlaceholder?_eq_some_iff.2 ⟨c, name ++ '\x7d' :: front, ?_, hc, ?_, ?_⟩
    · rw [List.append_assoc]
      rfl
    · exact congrArg Prod.snd hclosed
    · rw [htake]

/-! ## Names of functions and symbols -/

theorem readsOff_readWord (text : Text) :
    ReadsOff readWord (fun front => ((readWord text).1, front)) text (readWord text).2 :=
  (Text.readsOff_span isWordChar text).map fun parts : Text × Text =>
    (word (parts.1.map Char.toLower), parts.2)

end Token

/-- A symbol is read where its spelling stands and none of the spellings in front of it does. -/
theorem Symbol.read?_eq_some_iff {text rest : Text} {s : Symbol} :
    read? text = some (s, rest) ↔
      ∃ earlier spelling later, spellings = earlier ++ (spelling, s) :: later ∧
        text = spelling ++ rest ∧ ∀ entry ∈ earlier, ¬entry.1 <+: text := by
  have hentry (entry : Text × Symbol) :
      (entry.1.isPrefixOf? text).map (fun rest => (entry.2, rest)) = none ↔
        ¬entry.1 <+: text := by
    rw [Option.map_eq_none_iff, Option.eq_none_iff_forall_ne_some]
    constructor
    · rintro h ⟨rest, hrest⟩
      exact h rest (Text.isPrefixOf?_eq_some_iff.2 hrest.symm)
    · intro h rest hrest
      exact h ⟨rest, (Text.isPrefixOf?_eq_some_iff.1 hrest).symm⟩
  unfold read?
  rw [List.findSome?_eq_some_iff]
  constructor
  · rintro ⟨earlier, ⟨spelling, s'⟩, later, hspellings, hfound, hearlier⟩
    obtain ⟨rest', hrest, heq⟩ := Option.map_eq_some_iff.1 hfound
    cases heq
    exact ⟨earlier, spelling, later, hspellings, Text.isPrefixOf?_eq_some_iff.1 hrest,
      fun entry hmem => (hentry entry).1 (hearlier entry hmem)⟩
  · rintro ⟨earlier, spelling, later, hspellings, htext, hearlier⟩
    exact ⟨earlier, (spelling, s), later, hspellings,
      Option.map_eq_some_iff.2 ⟨rest, Text.isPrefixOf?_eq_some_iff.2 htext, rfl⟩,
      fun entry hmem => (hentry entry).2 (hearlier entry hmem)⟩

/-- A spelling that comes first on a text comes first on every front of it that still has it. -/
theorem Symbol.readsOff_read? {text rest : Text} {s : Symbol} (h : read? text = some (s, rest)) :
    ReadsOff read? (fun front => some (s, front)) text rest := by
  obtain ⟨earlier, spelling, later, hspellings, htext, hearlier⟩ := read?_eq_some_iff.1 h
  refine ⟨spelling, htext, ?_⟩
  intro front hfront
  refine read?_eq_some_iff.2 ⟨earlier, spelling, later, hspellings, rfl, ?_⟩
  intro entry hentry hbegins
  refine hearlier entry hentry (hbegins.trans ?_)
  rw [htext]
  exact (List.prefix_append_right_inj spelling).2 hfront

namespace Token

/-! ## One token -/

section One

variable {c : Char} {cs rest : Text} {t : Token}

theorem read?_brace (cs : Text) : read? ('\x7b' :: cs) = readPlaceholder? cs := by
  rw [read?, if_pos rfl]

theorem read?_of_number (hbrace : c ≠ '\x7b') (hnumber : startsNumber (c :: cs) = true) :
    read? (c :: cs) = some (readNumber (c :: cs)) := by
  rw [read?, if_neg hbrace, if_pos hnumber]

theorem read?_of_word (hbrace : c ≠ '\x7b') (hnumber : startsNumber (c :: cs) = false)
    (hword : isWordStart c = true) : read? (c :: cs) = some (readWord (c :: cs)) := by
  rw [read?, if_neg hbrace, if_neg (by simp [hnumber]), if_pos hword]

theorem read?_of_symbol (hbrace : c ≠ '\x7b') (hnumber : startsNumber (c :: cs) = false)
    (hword : isWordStart c = false) :
    read? (c :: cs) = (Symbol.read? (c :: cs)).map fun (s, rest) => (symbol s, rest) := by
  rw [read?, if_neg hbrace, if_neg (by simp [hnumber]), if_neg (by simp [hword])]

theorem readsOff_placeholder (h : readPlaceholder? cs = some (t, rest)) :
    ReadsOff read? (fun front => some (t, front)) ('\x7b' :: cs) rest := by
  obtain ⟨lexeme, hsplit, hread⟩ := readsOff_readPlaceholder? h
  refine ⟨'\x7b' :: lexeme, congrArg ('\x7b' :: ·) hsplit, ?_⟩
  intro front hfront
  rw [List.cons_append, read?_brace, hread front hfront]

theorem readsOff_number (hbrace : c ≠ '\x7b') (hnumber : startsNumber (c :: cs) = true)
    (h : readNumber (c :: cs) = (t, rest)) :
    ReadsOff read? (fun front => some (t, front)) (c :: cs) rest := by
  have hreads := readsOff_readNumber (c :: cs)
  have hlt := length_readNumber hnumber
  rw [h] at hreads hlt
  obtain ⟨lexeme, rfl, hread⟩ := hreads.exists_cons hlt
  have hlexeme : startsNumber (c :: lexeme) = true :=
    startsNumber_of_readNumber hnumber (congrArg Prod.snd h)
  refine ⟨c :: lexeme, rfl, ?_⟩
  intro front hfront
  obtain ⟨-, hfound⟩ := hread front hfront
  have hstarts : startsNumber (c :: (lexeme ++ front)) = true := startsNumber_append hlexeme front
  rw [List.cons_append, read?_of_number hbrace hstarts, hfound]

theorem readsOff_word (hbrace : c ≠ '\x7b') (hnumber : startsNumber (c :: cs) = false)
    (hword : isWordStart c = true) (h : readWord (c :: cs) = (t, rest)) :
    ReadsOff read? (fun front => some (t, front)) (c :: cs) rest := by
  have hreads := readsOff_readWord (c :: cs)
  have hlt := length_readWord cs hword
  rw [h] at hreads hlt
  obtain ⟨lexeme, rfl, hread⟩ := hreads.exists_cons hlt
  refine ⟨c :: lexeme, rfl, ?_⟩
  intro front hfront
  obtain ⟨hbegins, hfound⟩ := hread front hfront
  have hshort := startsNumber_of_front hbegins hnumber
  rw [List.cons_append, read?_of_word hbrace hshort hword, hfound]

theorem readsOff_symbol {s : Symbol} (hbrace : c ≠ '\x7b')
    (hnumber : startsNumber (c :: cs) = false) (hword : isWordStart c = false)
    (h : Symbol.read? (c :: cs) = some (s, rest)) :
    ReadsOff read? (fun front => some (symbol s, front)) (c :: cs) rest := by
  obtain ⟨lexeme, rfl, hread⟩ := (Symbol.readsOff_read? h).exists_cons (length_of_readSymbol? h)
  refine ⟨c :: lexeme, rfl, ?_⟩
  intro front hfront
  obtain ⟨hbegins, hfound⟩ := hread front hfront
  have hshort := startsNumber_of_front hbegins hnumber
  rw [List.cons_append, read?_of_symbol hbrace hshort hword, hfound]
  rfl

/-- The token at the front of a text is cut off cleanly. -/
theorem readsOff_read? {text : Text} (h : read? text = some (t, rest)) :
    ReadsOff read? (fun front => some (t, front)) text rest := by
  cases text with
  | nil => cases h
  | cons c cs =>
    by_cases hbrace : c = '\x7b'
    · subst hbrace
      rw [read?_brace] at h
      exact readsOff_placeholder h
    by_cases hnumber : startsNumber (c :: cs) = true
    · rw [read?_of_number hbrace hnumber] at h
      exact readsOff_number hbrace hnumber (Option.some.inj h)
    rw [Bool.not_eq_true] at hnumber
    by_cases hword : isWordStart c = true
    · rw [read?_of_word hbrace hnumber hword] at h
      exact readsOff_word hbrace hnumber hword (Option.some.inj h)
    rw [Bool.not_eq_true] at hword
    rw [read?_of_symbol hbrace hnumber hword] at h
    obtain ⟨⟨s, rest'⟩, hsymbol, heq⟩ := Option.map_eq_some_iff.1 h
    cases heq
    exact readsOff_symbol hbrace hnumber hword hsymbol

end One

/-! ## Whole texts -/

/-- The lexeme of a token: the text that is nothing but the token. -/
structure IsSpelling (lexeme : Text) (t : Token) : Prop where
  read? : read? lexeme = some (t, [])
  ofText : ofText lexeme = .ok [t]

/-- The text consists of blanks and of one lexeme for each token, in the order of the tokens. -/
inductive Spelled : Text → List Token → Prop
  | nil : Spelled [] []
  | blank {c : Char} {text : Text} {ts : List Token} (hc : Text.isBlank c = true)
    (h : Spelled text ts) : Spelled (c :: text) ts
  | token {lexeme text : Text} {t : Token} {ts : List Token} (hlexeme : IsSpelling lexeme t)
    (h : Spelled text ts) : Spelled (lexeme ++ text) (t :: ts)

theorem ofTextFrom_nil (before : List Token) : ofTextFrom before [] = .ok before.reverse := by
  rw [ofTextFrom]

theorem ofTextFrom_blank {c : Char} (hc : Text.isBlank c = true) (before : List Token)
    (cs : Text) : ofTextFrom before (c :: cs) = ofTextFrom before cs := by
  rw [ofTextFrom, if_pos hc]

theorem ofTextFrom_of_none {c : Char} {cs : Text} (hblank : Text.isBlank c = false)
    (h : read? (c :: cs) = none) (before : List Token) :
    ofTextFrom before (c :: cs) =
      .error (.badFormula (.illegalText (illegalExcerpt (c :: cs)))) := by
  rw [ofTextFrom, if_neg (by simp [hblank])]
  split
  · next hread =>
    rw [h] at hread
    cases hread
  · rfl

/-- The lexeme that the reader takes off is read behind any tokens and in front of any front of
what followed it. -/
theorem exists_lexeme {c : Char} {cs rest : Text} {t : Token} (hblank : Text.isBlank c = false)
    (h : read? (c :: cs) = some (t, rest)) :
    ∃ lexeme, c :: cs = lexeme ++ rest ∧ IsSpelling lexeme t ∧
      ∀ before front, front <+: rest →
        ofTextFrom before (lexeme ++ front) = ofTextFrom (t :: before) front := by
  obtain ⟨lexeme, rfl, hread⟩ := (readsOff_read? h).exists_cons (length_of_read? h)
  have hfrom (before : List Token) (front : Text) (hfront : front <+: rest) :
      ofTextFrom before (c :: (lexeme ++ front)) = ofTextFrom (t :: before) front :=
    ofTextFrom_cons hblank (hread front hfront).2
  have halone := hread [] List.nil_prefix
  have hwhole := hfrom [] [] List.nil_prefix
  rw [List.append_nil] at halone hwhole
  refine ⟨c :: lexeme, rfl, ⟨halone.2, ?_⟩, hfrom⟩
  rw [ofText, hwhole, ofTextFrom_nil]
  rfl

/-- The place at which reading stops: the text in front of it, the excerpt that the failure shows,
and the text behind that. -/
structure StopsAt (text front excerpt back : Text) : Prop where
  split : text = front ++ excerpt ++ back
  ne_nil : excerpt ≠ []
  not_blank : ∀ c ∈ excerpt.head?, Text.isBlank c = false
  unread : read? (excerpt ++ back) = none

/-- What the failure shows is the text from the place on, at least one character. -/
theorem illegalExcerpt_cons (c : Char) (cs : Text) :
    ∃ shown back, illegalExcerpt (c :: cs) = c :: shown ∧ cs = shown ++ back := by
  by_cases hbrace : c = '\x7b'
  · refine ⟨_, (cs.dropWhile (· != '\x7d')).drop 1, if_pos hbrace, ?_⟩
    rw [List.append_assoc, List.take_append_drop, List.takeWhile_append_dropWhile]
  · exact ⟨_, _, if_neg hbrace, List.takeWhile_append_dropWhile.symm⟩

/-- Reading stops at a character that is no blank and begins no token. -/
theorem stopsAt_illegalExcerpt {c : Char} {cs : Text} (hblank : Text.isBlank c = false)
    (h : read? (c :: cs) = none) : ∃ back, StopsAt (c :: cs) [] (illegalExcerpt (c :: cs)) back := by
  obtain ⟨shown, back, hshown, rfl⟩ := illegalExcerpt_cons c cs
  rw [hshown]
  refine ⟨back, rfl, List.cons_ne_nil c shown, ?_, h⟩
  rintro _ ⟨⟩
  exact hblank

theorem StopsAt.append {text front excerpt back : Text} (h : StopsAt text front excerpt back)
    (lexeme : Text) : StopsAt (lexeme ++ text) (lexeme ++ front) excerpt back where
  split := by rw [h.split, List.append_assoc, List.append_assoc, List.append_assoc]
  ne_nil := h.ne_nil
  not_blank := h.not_blank
  unread := h.unread

/-- Reading goes to the end, or it stops at a place in front of which everything is read; one more
blank or token in front changes neither. -/
theorem ofTextFrom_cases (before : List Token) (text : Text) :
    (∃ ts, ofTextFrom before text = .ok (before.reverse ++ ts) ∧ Spelled text ts) ∨
    ∃ front excerpt back ts,
      ofTextFrom before text = .error (.badFormula (.illegalText excerpt)) ∧
      StopsAt text front excerpt back ∧ ofTextFrom before front = .ok ts := by
  fun_induction ofTextFrom before text with
  | case1 before =>
    left
    exact ⟨[], by rw [List.append_nil], .nil⟩
  | case2 before c cs hblank ih =>
    rcases ih with ⟨ts, hok, hspelled⟩ | ⟨front, excerpt, back, ts, herror, hstops, hfront⟩
    · exact .inl ⟨ts, hok, hspelled.blank hblank⟩
    · right
      refine ⟨c :: front, excerpt, back, ts, herror, hstops.append [c], ?_⟩
      rw [ofTextFrom_blank hblank, hfront]
  | case3 before c cs hblank t rest hread hlt ih =>
    rw [Bool.not_eq_true] at hblank
    obtain ⟨lexeme, hsplit, hlexeme, hfrom⟩ := exists_lexeme hblank hread
    rw [hsplit]
    rcases ih with ⟨ts, hok, hspelled⟩ | ⟨front, excerpt, back, ts, herror, hstops, hfront⟩
    · left
      refine ⟨t :: ts, ?_, hspelled.token hlexeme⟩
      rw [hok, List.reverse_cons, List.append_assoc]
      rfl
    · right
      -- The lexeme is read in front of what is read of the rest, although the rest was longer.
      have hbegins : front <+: rest := ⟨excerpt ++ back, by rw [hstops.split, List.append_assoc]⟩
      refine ⟨lexeme ++ front, excerpt, back, ts, herror, hstops.append lexeme, ?_⟩
      rw [hfrom before front hbegins, hfront]
  | case4 before c cs hblank hread =>
    right
    rw [Bool.not_eq_true] at hblank
    obtain ⟨back, hstops⟩ := stopsAt_illegalExcerpt hblank hread
    exact ⟨[], _, back, before.reverse, rfl, hstops, ofTextFrom_nil before⟩

/-- A text consists of blanks and of the lexemes of its tokens, each of which is its token when it
stands alone. Or reading stops at the first place at which no token begins: the failure shows a
piece of the text that begins there, what stands in front of it is read, and there is no other
failure. -/
theorem ofText_cases (text : Text) :
    (∃ ts, ofText text = .ok ts ∧ Spelled text ts) ∨
    ∃ front excerpt back ts,
      ofText text = .error (.badFormula (.illegalText excerpt)) ∧
      StopsAt text front excerpt back ∧ ofText front = .ok ts :=
  ofTextFrom_cases [] text

end Token

end RadixCalc
