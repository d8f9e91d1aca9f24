import RadixCalc.Decimal.Numeral
import RadixCalc.Json.Basic

/-!
# Reading JSON

A strict reader: blanks are the space, the tabulation and the two line ends; numbers have no leading
zero and no lone point; strings hold no raw control; no comma ends a list; and nothing but blanks
follows the value. Nesting is not limited.

* `Json.ofText?` reads a whole document.
-/

namespace RadixCalc.Json

/-- Tells whether a character may stand between the parts of a document. -/
def isBlank (c : Char) : Bool :=
  c = ' ' || c = '\t' || c = '\n' || c = '\r'

/-- The text behind the blanks in front. -/
def skipBlanks (text : Text) : Text :=
  text.dropWhile isBlank

/-! ## Strings -/

/-- The code point that a letter behind a backslash stands for. -/
def shortEscape? (c : Char) : Option Nat :=
  match c with
  | '"' => some 0x22
  | '\\' => some 0x5c
  | '/' => some 0x2f
  | 'b' => some 0x08
  | 'f' => some 0x0c
  | 'n' => some 0x0a
  | 'r' => some 0x0d
  | 't' => some 0x09
  | _ => none

/-- The value of a hexadecimal digit of either case. -/
def hexValue? (c : Char) : Option Nat :=
  (digitValue? c).filter (· < 16)

/-- The code points of a string behind its opening mark, and the text behind its closing mark. -/
def readPoints? : Text → Option (List Nat × Text)
  | [] => none
  | '"' :: rest => some ([], rest)
  | '\\' :: 'u' :: a :: b :: c :: d :: rest => do
    let ds ← [a, b, c, d].mapM hexValue?
    let (points, behind) ← readPoints? rest
    return (valueOfDigits 16 ds :: points, behind)
  | '\\' :: c :: rest => do
    let point ← shortEscape? c
    let (points, behind) ← readPoints? rest
    return (point :: points, behind)
  | c :: rest =>
    if c.toNat < 0x20 || c = '\\' then none
    else do
      let (points, behind) ← readPoints? rest
      return (c.toNat :: points, behind)

/-- A string and what follows it. -/
def readString? : Text → Option (List Nat × Text)
  | '"' :: rest => readPoints? rest
  | _ => none

/-! ## Numbers -/

/-- The whole part of a number: one figure, or several of which the first is not 0. -/
def readWhole? (text : Text) : Option (Text × Text) :=
  match Numeral.readFigures text with
  | ([], _) => none
  | ('0' :: _ :: _, _) => none
  | found => some found

/-- The fraction of a number with its point, if it has one. -/
def readFraction? : Text → Option (Text × Text)
  | '.' :: rest =>
    match Numeral.readFigures rest with
    | ([], _) => none
    | (figures, behind) => some ('.' :: figures, behind)
  | text => some ([], text)

/-- The sign in front of an exponent, if it has one. -/
def readExponentSign : Text → Text × Text
  | '+' :: rest => (['+'], rest)
  | '-' :: rest => (['-'], rest)
  | text => ([], text)

/-- The exponent of a number with its letter, if it has one. -/
def readExponent? : Text → Option (Text × Text)
  | [] => some ([], [])
  | c :: rest =>
    if c = 'e' || c = 'E' then
      let (sign, unsigned) := readExponentSign rest
      match Numeral.readFigures unsigned with
      | ([], _) => none
      | (figures, behind) => some (c :: sign ++ figures, behind)
    else some ([], c :: rest)

/-- The minus in front of a number, if it has one. -/
def readMinus : Text → Text × Text
  | '-' :: rest => (['-'], rest)
  | text => ([], text)

/-- A number and what follows it. -/
def readNumber? (text : Text) : Option (Json × Text) := do
  let (minus, unsigned) := readMinus text
  let (whole, afterWhole) ← readWhole? unsigned
  let (fraction, afterFraction) ← readFraction? afterWhole
  let (exponent, rest) ← readExponent? afterFraction
  return (number (minus ++ whole ++ fraction ++ exponent), rest)

/-! ## Values -/

/-- A word with a meaning, and what follows it. -/
def readWord? (word : Text) (value : Json) (text : Text) : Option (Json × Text) :=
  (word.isPrefixOf? text).map fun rest => (value, rest)

/-- A value without parts, and what follows it. -/
def readScalar? (text : Text) : Option (Json × Text) :=
  match text with
  | '"' :: rest => (readPoints? rest).map fun (points, behind) => (string points, behind)
  | 'n' :: _ => readWord? "null".toList null text
  | 't' :: _ => readWord? "true".toList (bool true) text
  | 'f' :: _ => readWord? "false".toList (bool false) text
  | _ => readNumber? text

/-- What follows a mark, if the mark comes next behind blanks. -/
def behind? (mark : Char) (text : Text) : Option Text :=
  match skipBlanks text with
  | [] => none
  | c :: rest => if c = mark then some rest else none

theorem length_of_behind? {mark : Char} {text rest : Text} (h : behind? mark text = some rest) :
    rest.length < text.length := by
  have hle : (skipBlanks text).length ≤ text.length := (List.dropWhile_suffix _).length_le
  unfold behind? at h
  split at h
  · simp at h
  · next hskip =>
    split at h
    · obtain rfl := Option.some.inj h
      rw [hskip, List.length_cons] at hle
      exact hle
    · simp at h

mutual

/-- A value behind blanks, and what follows it. -/
def readValue? (text : Text) : Option (Json × Text) :=
  match h : behind? '[' text with
  | some rest =>
    have : rest.length < text.length := length_of_behind? h
    match behind? ']' rest with
    | some behind => some (array [], behind)
    | none => (readItems? rest).map fun (items, behind) => (array items, behind)
  | none =>
    match h : behind? '\x7b' text with
    | some rest =>
      have : rest.length < text.length := length_of_behind? h
      match behind? '\x7d' rest with
      | some behind => some (object [], behind)
      | none => (readMembers? rest).map fun (members, behind) => (object members, behind)
    | none => readScalar? (skipBlanks text)
  termination_by 2 * text.length

/-- One or more values with commas between them, the closing bracket, and what follows it. -/
def readItems? (text : Text) : Option (List Json × Text) :=
  match readValue? text with
  | none => none
  | some (item, afterItem) =>
    match behind? ',' afterItem with
    | none => (behind? ']' afterItem).map fun behind => ([item], behind)
    | some rest =>
      if rest.length < text.length then
        (readItems? rest).map fun (items, behind) => (item :: items, behind)
      else none
  termination_by 2 * text.length + 1

/-- One or more members with commas between them, the closing brace, and what follows it. -/
def readMembers? (text : Text) : Option (List (List Nat × Json) × Text) :=
  match readString? (skipBlanks text) with
  | none => none
  | some (key, afterKey) =>
    match behind? ':' afterKey with
    | none => none
    | some afterColon =>
      if afterColon.length < text.length then
        match readValue? afterColon with
        | none => none
        | some (value, afterValue) =>
          match behind? ',' afterValue with
          | none => (behind? '\x7d' afterValue).map fun behind => ([(key, value)], behind)
          | some rest =>
            if rest.length < text.length then
              (readMembers? rest).map fun (members, behind) => ((key, value) :: members, behind)
            else none
      else none
  termination_by 2 * text.length + 1

end

/-- The value of a whole document. -/
def ofText? (text : Text) : Option Json :=
  match readValue? text with
  | some (value, rest) => if (skipBlanks rest).isEmpty then some value else none
  | none => none

end RadixCalc.Json
