import RadixCalc.Decimal.Significant
import RadixCalc.Layout.Basic

/-!
# Numbers in a layout

A number is shown as a sign, the prefix of the radix, the digits before the point in their groups, a
point and the digits behind it. Groups are counted from the point and parted by an underscore. A
zero has no sign, and neither has a number in a fixed field.

The point and the underscore are neutral marks; `RadixCalc.Locale` replaces them by the separators
of a reader.

* `groupDigits` writes the groups.
* `Layout.display` shows a number.
-/

namespace RadixCalc

/-- The mark between groups. -/
def groupMark : Char := '_'

/-- The mark before the fraction. -/
def pointMark : Char := '.'

/-- The digits with a mark wherever a whole number of groups follows. -/
def groupDigits (size : Nat) : Text → Text
  | [] => []
  | c :: cs =>
    if cs ≠ [] ∧ cs.length % size = 0 then c :: groupMark :: groupDigits size cs
    else c :: groupDigits size cs

/-- Without its marks a grouped text is the text again. -/
theorem filter_groupDigits (size : Nat) {ds : Text} (h : ∀ c ∈ ds, c ≠ groupMark) :
    (groupDigits size ds).filter (· != groupMark) = ds := by
  induction ds with
  | nil => rfl
  | cons c cs ih =>
    have hc := h c (by simp)
    have ih := ih fun d hd => h d (by simp [hd])
    unfold groupDigits
    split <;> simp [hc, ih]

namespace Layout

/-- The magnitude that a layout shows, in units of its last digit. A fixed field is asked for in any
radix, and only a bit radix has one. -/
def magnitude (l : Layout) (r : Radix) (units : Nat) : Nat :=
  let n := Double.scaled r l.fraction units
  if l.exactDigits then
    match r.bitsPerDigit? with
    | some bits => l.keep bits n
    | none => n
  else n

/-- The digits of a magnitude, as many as the layout asks for at least. -/
def digitText (l : Layout) (r : Radix) (n : Nat) : Text :=
  padZeros l.digitCount (numeral r.value n)

/-- Whether a minus stands in front. -/
def showsMinus (l : Layout) (r : Radix) (negative : Bool) (n : Nat) : Bool :=
  negative && n != 0 && !(l.exactDigits && r.bitsPerDigit?.isSome)

/-- The prefix, where it is asked for and the radix has one. -/
def prefixText (l : Layout) (r : Radix) : Text :=
  if l.showRadix then r.shownPrefix?.getD [] else []

/-- A finite number in a layout. -/
def displayFinite (l : Layout) (r : Radix) (negative : Bool) (units : Nat) : Text :=
  let n := l.magnitude r units
  let ds := l.digitText r n
  let whole := ds.take (ds.length - l.fraction)
  let fraction := ds.drop (ds.length - l.fraction)
  Double.signText (l.showsMinus r negative n)
    (l.prefixText r ++ groupDigits l.group whole ++
      if l.fraction = 0 then [] else pointMark :: fraction)

/-- A number in a layout of this radix. -/
def displayIn (l : Layout) (r : Radix) : Double → Text
  | .nan => Double.nanText
  | .infinity negative => Double.infinityText negative
  | .finite negative rank => l.displayFinite r negative (Double.unitsOfRank rank)

/-- A number in a layout, if the layout can be met. -/
def display (l : Layout) (x : Double) : Except Failure Text :=
  match l.radix with
  | .error e => .error e
  | .ok r => .ok (l.displayIn r x)

end Layout

end RadixCalc
