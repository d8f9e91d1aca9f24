import RadixCalc.Decimal.Numeral
import RadixCalc.Failure
import RadixCalc.Radix
import RadixCalc.Text.Alphabetic

/-!
# From text to tokens

Blanks separate tokens and are skipped. The first character of a token settles its kind: a brace
opens a variable, a figure or a point before a figure a number, a letter or an underscore the name
of a function; everything else is the longest symbol that stands there. Where none of these fits,
the failure shows the stretch of text that cannot be read.

* `Token.read?` reads one token at the front of a text.
* `Token.ofText` reads a whole text.
-/

namespace RadixCalc

/-! ## Symbols -/

/-- The spellings of the symbols. A spelling stands before the spellings it extends, so the first
one that fits is the longest. -/
def Symbol.spellings : List (Text × Symbol) :=
  [(['=', '=', '='], equal), (['!', '=', '='], notEqual), (['*', '*'], caret),
   (['<', '<'], shiftLeft), (['>', '>'], shiftRight), (['<', '='], lessEqual),
   (['>', '='], greaterEqual), (['<', '>'], notEqual), (['=', '='], equal), (['!', '='], notEqual),
   (['&', '&'], and), (['|', '|'], or), (['+'], plus), (['-'], minus), (['*'], star),
   (['/'], slash), (['%'], percent), (['^'], caret), (['~'], tilde), (['!'], bang), (['<'], less),
   (['>'], greater), (['&'], bitAnd), (['|'], bitOr), (['?'], question), ([':'], colon),
   ([','], comma), (['('], openParen), ([')'], closeParen)]

/-- The longest symbol at the front of a text, and what follows it. -/
def Symbol.read? (text : Text) : Option (Symbol × Text) :=
  spellings.findSome? fun (spelling, symbol) =>
    (spelling.isPrefixOf? text).map fun rest => (symbol, rest)

namespace Token

/-! ## Variables -/

/-- Tells whether a character may stand in the name of a variable behind the first. -/
def isNameChar (c : Char) : Bool :=
  !(['>', ' ', '<', '\x7b', '\x7d', '"', '\''].contains c)

/-- The variable whose opening brace has just been read: a name that begins with an alphabetic
character, and the closing brace. -/
def readPlaceholder? : Text → Option (Token × Text)
  | [] => none
  | c :: cs =>
    if Text.isAlphabetic c then
      match cs.dropWhile isNameChar with
      | '\x7d' :: rest => some (placeholder (c :: cs.takeWhile isNameChar), rest)
      | _ => none
    else none

/-! ## Numbers -/

/-- The longest run of digits of a radix at the front of a text, and what follows it. -/
def readDigits (radix : Radix) : Text → List Nat × Text
  | [] => ([], [])
  | c :: cs =>
    match radix.digitValue? c with
    | none => ([], c :: cs)
    | some digit =>
      let (ds, rest) := readDigits radix cs
      (digit :: ds, rest)

/-- A whole number behind the prefix of its radix, with at least one digit. -/
def readPrefixed? : Text → Option (Double × Text)
  | '0' :: letter :: cs =>
    match Radix.ofLetter? letter with
    | none => none
    | some radix =>
      match readDigits radix cs with
      | ([], _) => none
      | (ds, rest) => some (radix.toDouble ds, rest)
  | _ => none

/-- A number at the front of a text; a text that begins with a figure or with a point before a
figure has one. -/
def readNumber (text : Text) : Token × Text :=
  match readPrefixed? text with
  | some (value, rest) => (number value, rest)
  | none =>
    let (n, rest) := Numeral.read text
    (number (n.toDouble false), rest)

/-- Tells whether a number begins here. -/
def startsNumber : Text → Bool
  | '.' :: c :: _ => c.isDigit
  | c :: _ => c.isDigit
  | [] => false

/-! ## Names of functions -/

/-- Tells whether a character begins the name of a function. -/
def isWordStart (c : Char) : Bool :=
  c.isAlpha || c == '_'

/-- Tells whether a character continues the name of a function. -/
def isWordChar (c : Char) : Bool :=
  c.isAlphanum || c == '_'

/-- The name of a function at the front of a text, in small letters. -/
def readWord (text : Text) : Token × Text :=
  (word ((text.takeWhile isWordChar).map Char.toLower), text.dropWhile isWordChar)

/-! ## One token -/

/-- The token at the front of a text that does not begin with a blank. -/
def read? (text : Text) : Option (Token × Text) :=
  match text with
  | [] => none
  | c :: cs =>
    if c = '\x7b' then readPlaceholder? cs
    else if startsNumber text then some (readNumber text)
    else if isWordStart c then some (readWord text)
    else (Symbol.read? text).map fun (s, rest) => (symbol s, rest)

/-! ## Illegal text -/

/-- The marks that have a meaning somewhere in a formula. -/
def marks : Text :=
  "-+/*%^~<>:?=&|!.,()\x7b\x7d_".toList

/-- Tells whether a character has no place anywhere in a formula outside braces. -/
def isForeign (c : Char) : Bool :=
  !(Text.isBlank c || c.isAlphanum || marks.contains c)

/-- The stretch of text to show when no token begins at its front: from a brace through the closing
brace, from another character through the foreign characters behind it. -/
def illegalExcerpt : Text → Text
  | [] => []
  | c :: cs =>
    if c = '\x7b' then
      c :: (cs.takeWhile (· != '\x7d') ++ (cs.dropWhile (· != '\x7d')).take 1)
    else c :: cs.takeWhile isForeign

/-! ## Progress -/

theorem readDigits_suffix (radix : Radix) (text : Text) : (readDigits radix text).2 <:+ text := by
  fun_induction readDigits radix text with
  | case1 => simp
  | case2 => simp
  | case3 c cs digit h ds rest heq ih =>
    rw [heq] at ih
    exact ih.trans (List.suffix_cons c cs)

theorem length_of_readPrefixed? {text rest : Text} {v : Double}
    (h : readPrefixed? text = some (v, rest)) : rest.length < text.length := by
  unfold readPrefixed? at h
  split at h
  · next cs =>
    split at h
    · simp at h
    · next radix _ =>
      split at h
      · simp at h
      · next heq =>
        have hsuffix := readDigits_suffix radix cs
        obtain ⟨_, rfl⟩ := Prod.mk.inj (Option.some.inj h)
        rw [heq] at hsuffix
        exact Nat.lt_succ_of_le (Nat.le_succ_of_le hsuffix.length_le)
  · simp at h

theorem length_readNumber {text : Text} (h : startsNumber text = true) :
    (readNumber text).2.length < text.length := by
  unfold readNumber
  split
  · next heq => exact length_of_readPrefixed? heq
  · match text, h with
    | c :: cs, h =>
      refine Numeral.length_read_lt cs ?_
      by_cases hc : c = '.'
      · exact .inr hc
      · left
        unfold startsNumber at h
        split at h <;> simp_all

theorem length_readWord {c : Char} (cs : Text) (h : isWordStart c = true) :
    (readWord (c :: cs)).2.length < (c :: cs).length := by
  have hc : isWordChar c = true := by
    simp only [isWordStart, isWordChar, Char.isAlphanum, Bool.or_eq_true] at h ⊢
    exact h.imp_left .inl
  have hle := (List.dropWhile_suffix (l := cs) isWordChar).length_le
  simpa [readWord, hc] using Nat.lt_succ_of_le hle

theorem length_of_readPlaceholder? {text rest : Text} {t : Token}
    (h : readPlaceholder? text = some (t, rest)) : rest.length < text.length := by
  unfold readPlaceholder? at h
  split at h
  · simp at h
  · next c cs =>
    split at h
    · split at h
      · next hdrop =>
        have hle := (List.dropWhile_suffix (l := cs) isNameChar).length_le
        obtain ⟨_, rfl⟩ := Prod.mk.inj (Option.some.inj h)
        rw [hdrop, List.length_cons] at hle
        exact Nat.lt_succ_of_lt hle
      · simp at h
    · simp at h

theorem length_of_readSymbol? {text rest : Text} {s : Symbol}
    (h : Symbol.read? text = some (s, rest)) : rest.length < text.length := by
  obtain ⟨⟨spelling, s'⟩, hmem, hread⟩ := List.exists_of_findSome?_eq_some h
  obtain ⟨r, hr, heq⟩ := Option.map_eq_some_iff.1 hread
  obtain ⟨rfl, rfl⟩ := Prod.mk.inj heq
  exact Text.length_of_isPrefixOf?
    ((by decide : ∀ entry ∈ Symbol.spellings, entry.1 ≠ []) _ hmem) hr

/-- A token is taken off the front of the text. -/
theorem length_of_read? {text rest : Text} {t : Token} (h : read? text = some (t, rest)) :
    rest.length < text.length := by
  unfold read? at h
  split at h
  · simp at h
  · next c cs =>
    split at h
    · exact Nat.lt_succ_of_lt (length_of_readPlaceholder? h)
    · split at h
      · next hn => simpa [Option.some.inj h] using length_readNumber hn
      · split at h
        · next hw => simpa [Option.some.inj h] using length_readWord cs hw
        · obtain ⟨⟨s, r⟩, hs, heq⟩ := Option.map_eq_some_iff.1 h
          obtain ⟨_, rfl⟩ := Prod.mk.inj heq
          exact length_of_readSymbol? hs

/-! ## Whole texts -/

/-- The tokens of a text, behind those read before, latest first. -/
def ofTextFrom (before : List Token) (text : Text) : Except Failure (List Token) :=
  match text with
  | [] => .ok before.reverse
  | c :: cs =>
    if Text.isBlank c then ofTextFrom before cs
    else
      match h : read? (c :: cs) with
      | some (token, rest) =>
        have : rest.length < cs.length + 1 := length_of_read? h
        ofTextFrom (token :: before) rest
      | none => .error (.badFormula (.illegalText (illegalExcerpt (c :: cs))))
  termination_by text.length

/-- The tokens of a text. -/
def ofText (text : Text) : Except Failure (List Token) :=
  ofTextFrom [] text

end Token

end RadixCalc
