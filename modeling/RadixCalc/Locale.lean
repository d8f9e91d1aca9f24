import RadixCalc.Failure
import RadixCalc.Layout.Directive
import RadixCalc.Layout.Display

/-!
# Separators

Readers differ in the marks they expect before a fraction and between thousands. `Settings` is what
they ask for and `Locale` is what has been checked: the decimal separator is one character, and the
two separators differ.

* `Settings.locale` checks settings.
* `Locale.localize` puts the separators into a text that bears the neutral marks.
* `Locale.display` and `Locale.simpleText` show a number.
-/

namespace RadixCalc

/-- The separators and the way of showing numbers that a reader asks for. -/
structure Settings where
  /-- What stands before a fraction. -/
  decimal : Text
  /-- What stands between thousands. -/
  thousands : Text
  /-- Whether numbers in a bit radix are shown in fixed fields. -/
  exactDigits : Bool
  deriving DecidableEq, Repr

/-- Separators that can be told apart. -/
structure Locale where
  /-- The character before a fraction. -/
  point : Char
  /-- What stands between thousands; it may be empty. -/
  thousands : Text
  /-- Whether numbers in a bit radix are shown in fixed fields. -/
  exactDigits : Bool
  thousands_ne_point : thousands ≠ [point]
  deriving DecidableEq, Repr

namespace Settings

/-- A point before fractions, a comma between thousands, and no fixed fields. -/
def standard : Settings :=
  ⟨['.'], [','], false⟩

instance : Inhabited Settings := ⟨standard⟩

/-- The first character of the decimal separator, or a point where it is empty. -/
def point (s : Settings) : Char :=
  s.decimal.head?.getD '.'

/-- The separators, if they can be told apart. -/
def locale (s : Settings) : Except Failure Locale :=
  match s.decimal with
  | [point] =>
    if h : s.thousands = [point] then .error (.badSettings (.sameSeparators s.decimal))
    else .ok ⟨point, s.thousands, s.exactDigits, h⟩
  | _ => .error (.badSettings (.decimalSeparator s.decimal))

end Settings

namespace Locale

/-- A point before fractions, a comma between thousands, and no fixed fields. -/
def standard : Locale :=
  ⟨'.', [','], false, by decide⟩

/-- The text with its neutral marks replaced: the point always, the group mark only where the groups
are thousands. -/
def localize (l : Locale) (group : Nat) (text : Text) : Text :=
  text.flatMap fun c =>
    if c = pointMark then [l.point]
    else if c = groupMark ∧ group = Layout.thousandsGroup then l.thousands
    else [c]

/-- The plain display of a number. -/
def simpleText (l : Locale) (x : Double) : Text :=
  l.localize 0 x.simpleText

/-- A number in a layout; whether its field is fixed is for the reader to say, not for the layout.
-/
def display (l : Locale) (layout : Layout) (x : Double) : Except Failure Text :=
  match { layout with exactDigits := l.exactDigits }.display x with
  | .error e => .error e
  | .ok text => .ok (l.localize layout.group text)

/-- A number in the layout of a directive, if the text is one. -/
def displayBy? (l : Locale) (directive : Text) (x : Double) : Option Text :=
  match Layout.ofDirective? directive with
  | none => none
  | some layout => (l.display layout x).toOption

end Locale

end RadixCalc
