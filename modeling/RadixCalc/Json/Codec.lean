import RadixCalc.Json.Reader
import RadixCalc.Locale

/-!
# Stored layouts and settings

Layouts and settings are stored as JSON records. A record may leave fields out, which then keep
their standard values, and may have members of other names, which are passed over. What is not a
record of this kind is refused as a whole.

* `Layout.ofJsonText?` and `Layout.toJsonText` store layouts.
* `Settings.ofJsonText?` and `Settings.toJsonText` store settings; `Locale.ofJsonText` also checks
  the separators.
-/

namespace RadixCalc

/-- The limit of stored bases. -/
def baseLimit : Nat := UInt32.size

/-- The limit of stored sizes. -/
def sizeLimit : Nat := UInt64.size

/-- A record with these names and values. -/
def Json.record (names : List Text) (values : List Json) : Json :=
  object ((names.map fun name => name.map Char.toNat).zip values)

namespace Layout

/-- The names of the stored fields, in order. -/
def fieldNames : List Text :=
  ["base".toList, "entiers".toList, "fraction".toList, "groupe".toList, "chiffres_exacts".toList,
   "prefixe".toList]

/-- The layout that a record stores. -/
def ofJson? (j : Json) : Option Layout := do
  match ← j.fields? fieldNames with
  | [base, integers, fraction, group, exactDigits, showRadix] =>
    let base ← Json.fieldOr standard.base (Json.asNat? baseLimit) base
    let integers ← Json.fieldOr standard.integers (Json.asNat? sizeLimit) integers
    let fraction ← Json.fieldOr standard.fraction (Json.asNat? sizeLimit) fraction
    let group ← Json.fieldOr standard.group (Json.asNat? sizeLimit) group
    let exactDigits ← Json.fieldOr standard.exactDigits Json.asBool? exactDigits
    let showRadix ← Json.fieldOr standard.showRadix Json.asBool? showRadix
    return ⟨base, integers, fraction, group, exactDigits, showRadix⟩
  | _ => none

/-- The layout that a text stores. -/
def ofJsonText? (text : Text) : Option Layout :=
  (Json.ofText? text).bind ofJson?

/-- The record that stores a layout. -/
def toJson (l : Layout) : Json :=
  .record fieldNames
    [.ofNat l.base, .ofNat l.integers, .ofNat l.fraction, .ofNat l.group, .bool l.exactDigits,
     .bool l.showRadix]

/-- The text that stores a layout. -/
def toJsonText (l : Layout) : Text :=
  l.toJson.write

end Layout

namespace Settings

/-- The names of the stored fields, in order. -/
def fieldNames : List Text :=
  ["separateur_decimal".toList, "separateur_milliers".toList, "chiffres_exacts".toList]

/-- The settings that a record stores. -/
def ofJson? (j : Json) : Option Settings := do
  match ← j.fields? fieldNames with
  | [decimal, thousands, exactDigits] =>
    let decimal ← Json.fieldOr standard.decimal Json.asText? decimal
    let thousands ← Json.fieldOr standard.thousands Json.asText? thousands
    let exactDigits ← Json.fieldOr standard.exactDigits Json.asBool? exactDigits
    return ⟨decimal, thousands, exactDigits⟩
  | _ => none

/-- The settings that a text stores. -/
def ofJsonText? (text : Text) : Option Settings :=
  (Json.ofText? text).bind ofJson?

/-- The settings that a text stores, if they can be used. -/
def ofJsonText (text : Text) : Except Failure Settings :=
  match ofJsonText? text with
  | none => .error (.badSettings .json)
  | some s =>
    match s.locale with
    | .error e => .error e
    | .ok _ => .ok s

/-- The record that stores settings. -/
def toJson (s : Settings) : Json :=
  .record fieldNames [.ofText s.decimal, .ofText s.thousands, .bool s.exactDigits]

/-- The text that stores settings. -/
def toJsonText (s : Settings) : Text :=
  s.toJson.write

end Settings

end RadixCalc
