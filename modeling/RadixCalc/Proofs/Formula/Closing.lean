import RadixCalc.Proofs.Formula.Canonical
import RadixCalc.Proofs.Formula.Respelling

/-!
# A closing parenthesis behind a text

A closing parenthesis ends every token and begins none but its own. So a text that is made of tokens
has the same tokens in front of one: no number, name, operator or variable goes on with it, and a
literal that breaks off, as `1e` does, breaks off there as well.

* `Respelling.closing` is a text with a closing parenthesis behind it; its tokens are read alike.
* `Token.read?_closed` adds the variables, `Token.ofTextFrom_closed` is the reading of a whole text.
* `Token.ofTextFrom_enclosed` and `Token.ofText_called` put an opening parenthesis and the name of a
  function in front.
-/

namespace RadixCalc

/-- The text with a closing parenthesis behind it. -/
def closed (text : Text) : Text :=
  text ++ [')']

theorem closed_cons (c : Char) (cs : Text) : closed (c :: cs) = c :: closed cs := rfl

namespace Respelling

/-- A closing parenthesis behind the text. -/
def closing : Respelling where
  letter := id
  behind := [')']
  letter_cases _ := .inl rfl
  stops := by
    rintro _ ⟨⟩
    decide

theorem apply_closing (text : Text) : closing.apply text = closed text :=
  congrArg (· ++ [')']) (List.map_id text)

end Respelling

open Respelling (closing apply_closing)

namespace Token

/-- A name of a variable may hold a parenthesis, so here the closing brace is what ends it. -/
theorem readPlaceholder?_closed {text rest : Text} {t : Token}
    (h : readPlaceholder? text = some (t, rest)) :
    readPlaceholder? (closed text) = some (t, closed rest) := by
  obtain ⟨c, cs, rfl, hc, hdrop, rfl⟩ := readPlaceholder?_eq_some_iff.1 h
  have htake : (cs.takeWhile isNameChar).length ≠ cs.length := by
    intro heq
    have hsplit : cs.takeWhile isNameChar ++ cs.dropWhile isNameChar = cs :=
      List.takeWhile_append_dropWhile
    replace hsplit := congrArg List.length hsplit
    rw [hdrop, List.length_append, heq, List.length_cons] at hsplit
    omega
  refine readPlaceholder?_eq_some_iff.2 ⟨c, closed cs, rfl, hc, ?_, ?_⟩
  · rw [closed, List.dropWhile_append, hdrop]
    rfl
  · rw [closed, List.takeWhile_append, if_neg htake]

/-- A token that stands in front of a text stands in front of the closed text. -/
theorem read?_closed {c : Char} {cs rest : Text} {t : Token}
    (h : read? (c :: cs) = some (t, rest)) : read? (closed (c :: cs)) = some (t, closed rest) := by
  by_cases hbrace : c = '\x7b'
  · subst hbrace
    rw [closed_cons]
    rw [read?_brace] at h ⊢
    exact readPlaceholder?_closed h
  · have halike := readsAlikeAt_read? closing hbrace cs
    rw [ReadsAlikeAt, h, apply_closing] at halike
    rw [halike, Option.map_some, apply_closing]

theorem ofTextFrom_closed {before : List Token} {text : Text} {ts : List Token}
    (h : ofTextFrom before text = .ok ts) :
    ofTextFrom before (closed text) = .ok (ts ++ [.symbol .closeParen]) := by
  fun_induction ofTextFrom before text with
  | case1 before =>
    cases h
    have hclose : read? [')'] = some (.symbol .closeParen, []) := by decide
    rw [closed, List.nil_append, ofTextFrom_cons (by decide) hclose, ofTextFrom_nil,
      List.reverse_cons]
  | case2 before c cs hblank ih =>
    rw [closed_cons, ofTextFrom_blank hblank]
    exact ih h
  | case3 before c cs hblank t rest hread hlt ih =>
    rw [Bool.not_eq_true] at hblank
    have hclosed := read?_closed hread
    rw [closed_cons] at hclosed ⊢
    rw [ofTextFrom_cons hblank hclosed]
    exact ih h
  | case4 before c cs hblank hread => cases h

/-- Tokens read before stand in front of those of the text. -/
theorem ofTextFrom_append (before earlier : List Token) (text : Text) :
    ofTextFrom (before ++ earlier) text =
      (ofTextFrom before text).map (earlier.reverse ++ ·) := by
  fun_induction ofTextFrom before text with
  | case1 before =>
    rw [ofTextFrom_nil, List.reverse_append]
    rfl
  | case2 before c cs hblank ih => rw [ofTextFrom_blank hblank, ih]
  | case3 before c cs hblank t rest hread hlt ih =>
    rw [Bool.not_eq_true] at hblank
    rw [ofTextFrom_cons hblank hread]
    exact ih
  | case4 before c cs hblank hread =>
    rw [Bool.not_eq_true] at hblank
    rw [ofTextFrom_of_none hblank hread]
    rfl

/-! ## Texts in parentheses -/

/-- A text in parentheses has its tokens between theirs. -/
theorem ofTextFrom_enclosed {text : Text} {ts : List Token} (h : ofText text = .ok ts)
    (before : List Token) :
    ofTextFrom before ('(' :: closed text) =
      .ok (before.reverse ++ .symbol .openParen :: (ts ++ [.symbol .closeParen])) := by
  have hopen : ofTextFrom before ('(' :: closed text) =
      ofTextFrom (.symbol .openParen :: before) (closed text) :=
    ofTextFrom_punctuation (s := .openParen) (by decide) (closed text)
  have hclosed : ofTextFrom [] (closed text) = .ok (ts ++ [.symbol .closeParen]) :=
    ofTextFrom_closed h
  rw [hopen, ← List.nil_append (Token.symbol .openParen :: before), ofTextFrom_append, hclosed]
  simp [Except.map]

/-- The name of a function in any letters: a letter or an underscore, and letters, figures and
underscores behind it. -/
structure IsIdentifier (name : Text) : Prop where
  start : ∃ c cs, name = c :: cs ∧ isWordStart c = true
  char : ∀ c ∈ name, isWordChar c = true

/-- A call of a function with a text between the parentheses. -/
theorem ofText_called {name text : Text} {ts : List Token} (hname : IsIdentifier name)
    (h : ofText text = .ok ts) :
    ofText (name ++ '(' :: closed text) =
      .ok (.word (name.map Char.toLower) :: .symbol .openParen ::
        (ts ++ [.symbol .closeParen])) := by
  have hread : read? (name ++ '(' :: closed text) =
      some (.word (name.map Char.toLower), '(' :: closed text) :=
    read?_word_append hname.start hname.char (by rintro _ ⟨⟩; rfl)
  obtain ⟨c, cs, rfl, hc⟩ := hname.start
  rw [List.cons_append] at hread ⊢
  rw [ofText, ofTextFrom_cons (isWordStart_kind hc).1 hread, ofTextFrom_enclosed h]
  rfl

end Token

end RadixCalc
