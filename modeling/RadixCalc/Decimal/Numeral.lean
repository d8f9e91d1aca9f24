import RadixCalc.Decimal.Basic
import RadixCalc.Text.Blank

/-!
# Reading decimal numerals

An unsigned numeral is a run of figures, with an optional point and figures behind it, and an
optional exponent. It is read off the front of a text; an exponent counts only when it is complete,
so in `2e` and `2e+` the letter stays unread.

* `Numeral.read` reads the longest numeral at the front of a text.
* `Double.ofText?` reads a whole text as a signed number.
-/

namespace RadixCalc

/-- The parts of an unsigned decimal numeral. -/
structure Numeral where
  /-- The figures before the point. -/
  whole : Text
  /-- The figures behind the point. -/
  fraction : Text
  /-- The exponent of ten. -/
  exponent : Int
  deriving DecidableEq, Repr

namespace Numeral

/-- Tells whether the numeral has a figure outside its exponent. -/
def hasFigure (n : Numeral) : Bool :=
  !(n.whole.isEmpty && n.fraction.isEmpty)

/-- The double nearest to the numeral under the given sign. -/
def toDouble (n : Numeral) (negative : Bool) : Double :=
  Double.ofDecimal negative (valueOfFigures (n.whole ++ n.fraction))
    (n.exponent - n.fraction.length)

/-- A run of figures and what follows it. -/
def readFigures (text : Text) : Text × Text :=
  (text.takeWhile Char.isDigit, text.dropWhile Char.isDigit)

/-- A sign, if one stands in front, and what follows it. -/
def readSign : Text → Bool × Text
  | '-' :: rest => (true, rest)
  | '+' :: rest => (false, rest)
  | text => (false, text)

/-- A point and the figures behind it, if a point stands in front. -/
def readFraction : Text → Text × Text
  | '.' :: rest => readFigures rest
  | text => ([], text)

/-- An exponent behind its letter, if it has at least one figure. -/
def readExponentFigures (text rest : Text) : Int × Text :=
  let (negative, unsigned) := readSign rest
  match readFigures unsigned with
  | ([], _) => (0, text)
  | (figures, behind) =>
    let magnitude : Int := valueOfFigures figures
    (if negative then -magnitude else magnitude, behind)

/-- A complete exponent, if one stands in front. -/
def readExponent : Text → Int × Text
  | 'e' :: rest => readExponentFigures ('e' :: rest) rest
  | 'E' :: rest => readExponentFigures ('E' :: rest) rest
  | text => (0, text)

/-- The longest numeral at the front of a text, and what follows it. -/
def read (text : Text) : Numeral × Text :=
  let (whole, afterWhole) := readFigures text
  let (fraction, afterFraction) := readFraction afterWhole
  let (exponent, rest) := readExponent afterFraction
  (⟨whole, fraction, exponent⟩, rest)

/-! ## What is left unread -/

theorem readFigures_suffix (text : Text) : (readFigures text).2 <:+ text :=
  List.dropWhile_suffix _

theorem readSign_suffix (text : Text) : (readSign text).2 <:+ text := by
  unfold readSign
  split <;> simp

theorem readFraction_suffix (text : Text) : (readFraction text).2 <:+ text := by
  unfold readFraction
  split
  · exact (readFigures_suffix _).trans (List.suffix_cons _ _)
  · exact List.suffix_rfl

theorem readExponentFigures_suffix {text rest : Text} (h : rest <:+ text) :
    (readExponentFigures text rest).2 <:+ text := by
  unfold readExponentFigures
  simp only
  split
  · exact List.suffix_rfl
  · next heq =>
    have := readFigures_suffix (readSign rest).2
    rw [heq] at this
    exact (this.trans (readSign_suffix rest)).trans h

theorem readExponent_suffix (text : Text) : (readExponent text).2 <:+ text := by
  unfold readExponent
  split
  · exact readExponentFigures_suffix (List.suffix_cons _ _)
  · exact readExponentFigures_suffix (List.suffix_cons _ _)
  · exact List.suffix_rfl

/-- Reading a numeral leaves the end of the text. -/
theorem read_suffix (text : Text) : (read text).2 <:+ text :=
  ((readExponent_suffix _).trans (readFraction_suffix _)).trans (readFigures_suffix _)

/-- A text that begins with a figure, or with a point, is not left whole. -/
theorem length_read_lt {c : Char} (cs : Text) (h : c.isDigit = true ∨ c = '.') :
    (read (c :: cs)).2.length < (c :: cs).length := by
  have tail (text : Text) :
      (readExponent (readFraction text).2).2.length ≤ text.length :=
    ((readExponent_suffix _).trans (readFraction_suffix _)).length_le
  show (readExponent (readFraction (readFigures (c :: cs)).2).2).2.length < cs.length + 1
  by_cases hd : c.isDigit = true
  · have := tail (readFigures (c :: cs)).2
    have : (readFigures (c :: cs)).2.length ≤ cs.length := by
      simpa [readFigures, hd] using (List.dropWhile_suffix (l := cs) Char.isDigit).length_le
    omega
  · obtain rfl : c = '.' := by simpa [hd] using h
    have h₁ : (readFigures ('.' :: cs)).2 = '.' :: cs := by simp [readFigures]
    have h₂ : (readFraction ('.' :: cs)).2.length ≤ cs.length := by
      simpa [readFraction] using (readFigures_suffix cs).length_le
    have h₃ := (readExponent_suffix (readFraction ('.' :: cs)).2).length_le
    rw [h₁]
    omega

end Numeral

/-- The double that a whole text stands for: blanks around it, an optional sign, and a numeral with
at least one figure outside its exponent. -/
def Double.ofText? (text : Text) : Option Double :=
  let (negative, unsigned) := Numeral.readSign (text.trim)
  match Numeral.read unsigned with
  | (n, []) => if n.hasFigure then some (n.toDouble negative) else none
  | _ => none

end RadixCalc
