import RadixCalc.Decimal.Numeral
import RadixCalc.Layout.Basic

/-!
# Layout directives

A layout can be written down in a few characters: a percent sign, then optionally `p` for the
prefix, a comma for groups of thousands or an underscore for groups of four, the least number of
digits before the point, a point and the number of digits behind it, and at the end the letter of
the radix. Letters may be of either case. For instance `%p_8.4b` is base 2 with its prefix, in
groups of four, with eight digits before the point and four behind.

* `Layout.ofDirective` reads a directive.
-/

namespace RadixCalc

namespace Layout

/-- Whether a prefix is asked for, and what follows. -/
def readShowRadix : Text → Bool × Text
  | 'p' :: rest => (true, rest)
  | 'P' :: rest => (true, rest)
  | text => (false, text)

/-- The size of the groups asked for, and what follows. -/
def readGroup : Text → Nat × Text
  | ',' :: rest => (thousandsGroup, rest)
  | '_' :: rest => (quadGroup, rest)
  | text => (0, text)

/-- The number of digits that figures ask for, if it is a 64-bit word. -/
def widthOfFigures? (figures : Text) : Option Nat :=
  let width := valueOfFigures figures
  if width < UInt64.size then some width else none

/-- A number of digits, and what follows it. There may be no figures, and their number may be no
64-bit word. -/
def readWidth (text : Text) : Option (Option Nat) × Text :=
  match Numeral.readFigures text with
  | ([], behind) => (none, behind)
  | (figures, behind) => (some (widthOfFigures? figures), behind)

/-- The number of digits before the point, and what follows. -/
def readIntegerWidth? (text : Text) : Option (Nat × Text) :=
  match readWidth text with
  | (none, behind) => some (0, behind)
  | (some none, _) => none
  | (some (some integers), behind) => some (integers, behind)

/-- The number of digits behind the point, and what follows; a point needs a figure. -/
def readFractionWidth? : Text → Option (Nat × Text)
  | '.' :: rest =>
    match readWidth rest with
    | (none, _) => none
    | (some none, _) => none
    | (some (some fraction), behind) => some (fraction, behind)
  | text => some (0, text)

/-- The layout that a text spells behind its percent sign. -/
def ofDirectiveBody? (text : Text) : Option Layout :=
  let (showRadix, afterPrefix) := readShowRadix text
  let (group, afterGroup) := readGroup afterPrefix
  match readIntegerWidth? afterGroup with
  | none => none
  | some (integers, afterIntegers) =>
    match readFractionWidth? afterIntegers with
    | some (fraction, [letter]) =>
      match Radix.ofLetter? letter with
      | some r =>
        if integers ≤ maxDigits ∧ fraction ≤ maxDigits then
          some ⟨r.value, integers, fraction, group, false, showRadix⟩
        else none
      | none => none
    | _ => none

/-- The layout that a directive spells. -/
def ofDirective? : Text → Option Layout
  | '%' :: rest => ofDirectiveBody? rest
  | _ => none

/-- The layout that a directive spells, or the failure that quotes it. -/
def ofDirective (text : Text) : Except Failure Layout :=
  match ofDirective? text with
  | some l => .ok l
  | none => .error (.badLayout (.directive text))

end Layout

end RadixCalc
