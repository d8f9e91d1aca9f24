import RadixCalc.Digits

/-!
# JSON values

The values of JSON documents and their compact text. A number keeps its spelling, since some readers
accept whole numbers only when they are spelled without fraction or exponent. A string is a list of
code points and not yet a text: by its escapes a document can name one half of a surrogate pair, and
that is no character.

* `Json` is the type of values, `Json.write` the compact text.
* `Json.textOf?` makes a text of a string where every surrogate has its partner.
* `Json.fields?` takes a record apart.
-/

namespace RadixCalc

/-- A JSON value. -/
inductive Json where
  | null
  | bool (b : Bool)
  /-- A number, as it is spelled. -/
  | number (literal : Text)
  /-- A string, as code points. -/
  | string (points : List Nat)
  | array (items : List Json)
  | object (members : List (List Nat × Json))
  deriving Repr

namespace Json

/-! ## Strings -/

/-- Tells whether a code point is the first half of a surrogate pair. -/
def isHighSurrogate (point : Nat) : Bool :=
  0xd800 ≤ point && point < 0xdc00

/-- Tells whether a code point is the second half of a surrogate pair. -/
def isLowSurrogate (point : Nat) : Bool :=
  0xdc00 ≤ point && point < 0xe000

/-- The text of a string: surrogates are joined in pairs, and one without a partner is refused. -/
def textOf? : List Nat → Option Text
  | [] => some []
  | high :: low :: points =>
    if isHighSurrogate high && isLowSurrogate low then
      (textOf? points).map (Char.ofNat (0x10000 + (high - 0xd800) * 0x400 + (low - 0xdc00)) :: ·)
    else if isHighSurrogate high || isLowSurrogate high then none
    else (textOf? (low :: points)).map (Char.ofNat high :: ·)
  | [point] =>
    if isHighSurrogate point || isLowSurrogate point then none else some [Char.ofNat point]

/-- A text as a string. -/
def ofText (text : Text) : Json :=
  string (text.map Char.toNat)

/-- A natural number in plain figures. -/
def ofNat (n : Nat) : Json :=
  number (numeral 10 n)

/-! ## Writing -/

/-- A code point by its four hexadecimal digits. -/
def writeEscape (point : Nat) : Text :=
  ['\\', 'u'] ++ padZeros 4 (Nat.toDigits 16 point)

/-- A code point inside quotation marks: what has a short escape gets it, other controls and the
surrogates are written by their digits, and everything else stands for itself. -/
def writePoint (point : Nat) : Text :=
  if point = 0x22 then ['\\', '"']
  else if point = 0x5c then ['\\', '\\']
  else if point = 0x08 then ['\\', 'b']
  else if point = 0x09 then ['\\', 't']
  else if point = 0x0a then ['\\', 'n']
  else if point = 0x0c then ['\\', 'f']
  else if point = 0x0d then ['\\', 'r']
  else if point < 0x20 || isHighSurrogate point || isLowSurrogate point then writeEscape point
  else [Char.ofNat point]

/-- A string in quotation marks. -/
def writeString (points : List Nat) : Text :=
  '"' :: points.flatMap writePoint ++ ['"']

mutual

/-- The text of a value, without spaces. -/
def write : Json → Text
  | null => "null".toList
  | bool b => (if b then "true" else "false").toList
  | number literal => literal
  | string points => writeString points
  | array items => '[' :: [','].intercalate (writeItems items) ++ [']']
  | object members => '\x7b' :: [','].intercalate (writeMembers members) ++ ['\x7d']

/-- The texts of a list of values. -/
def writeItems : List Json → List Text
  | [] => []
  | item :: items => item.write :: writeItems items

/-- The texts of a list of members. -/
def writeMembers : List (List Nat × Json) → List Text
  | [] => []
  | (key, value) :: members => (writeString key ++ ':' :: value.write) :: writeMembers members

end

/-! ## Records -/

/-- The values of the members with a given key. -/
def valuesAt (key : Text) (members : List (Text × Json)) : List Json :=
  (members.filter (·.1 = key)).map (·.2)

/-- At most one value; two values of one field are refused. -/
def single? : List Json → Option (Option Json)
  | [] => some none
  | [value] => some (some value)
  | _ => none

/-- The fields of a record with these names, as far as they are given. A record is an object, in
which every field stands once at most and other members are passed over, or an array, which gives
the first fields in order. -/
def fields? (names : List Text) : Json → Option (List (Option Json))
  | object members => do
    let members ← members.mapM fun (key, value) => (textOf? key).map (·, value)
    names.mapM fun name => single? (valuesAt name members)
  | array items =>
    if items.length ≤ names.length then
      some (items.map some ++ List.replicate (names.length - items.length) none)
    else none
  | _ => none

/-- A natural number below a limit, spelled in figures only. -/
def asNat? (limit : Nat) : Json → Option Nat
  | number literal =>
    if literal.all Char.isDigit && valueOfFigures literal < limit then some (valueOfFigures literal)
    else none
  | _ => none

/-- A truth value. -/
def asBool? : Json → Option Bool
  | bool b => some b
  | _ => none

/-- A text. -/
def asText? : Json → Option Text
  | string points => textOf? points
  | _ => none

/-- A field by its decoder, or the default where it is not given. -/
def fieldOr {α : Type} (default : α) (decode : Json → Option α) : Option Json → Option α
  | none => some default
  | some value => decode value

end Json

end RadixCalc
