import RadixCalc.Text.Basic

/-!
# Blank characters

The Unicode property White_Space: tabulation, line ends, the space and its wider, narrower and
unbreakable relatives. The zero-width space and the byte order mark do not belong to it.
-/

namespace RadixCalc.Text

/-- The ranges of the property, in increasing order. -/
def blankRanges : List CodeRange :=
  [(0x9, 0xd), (0x20, 0x20), (0x85, 0x85), (0xa0, 0xa0), (0x1680, 0x1680), (0x2000, 0x200a),
   (0x2028, 0x2029), (0x202f, 0x202f), (0x205f, 0x205f), (0x3000, 0x3000)]

/-- Tells whether a character is blank. -/
def isBlank (c : Char) : Bool :=
  inRanges blankRanges c

/-- The text without the blanks at its two ends. -/
def trim (text : Text) : Text :=
  ((text.dropWhile isBlank).reverse.dropWhile isBlank).reverse

end RadixCalc.Text
