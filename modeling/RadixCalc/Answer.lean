import RadixCalc.Decimal.Numeral
import RadixCalc.Locale

/-!
# Reading answers

An answer is a number as people write it: a sign, the prefix of a radix, digits with separators
among them, the decimal separator and more digits, and behind the number a unit. Spaces do not
count. The radix is fixed beforehand or detected from the prefix; a fixed radix accepts its own
prefix only.

* `AnswerReader.digits` reads a run of digits and passes over separators.
* `AnswerReader.read?` reads an answer.
-/

namespace RadixCalc

/-- A number with the text behind it. -/
structure Answer where
  value : Double
  unit : Text
  deriving DecidableEq, Repr

/-- A way of reading answers. -/
structure AnswerReader where
  /-- The radix, or nothing where the prefix decides. -/
  radix? : Option Radix
  /-- The separators. -/
  locale : Locale
  deriving DecidableEq, Repr

namespace AnswerReader

/-- The reader for a base; a base below 2 leaves the choice to the prefix. -/
def make (base : Nat) (locale : Locale) : Except Failure AnswerReader :=
  if base < 2 then .ok ⟨none, locale⟩
  else
    match Radix.ofNat? base with
    | some r => .ok ⟨some r, locale⟩
    | none => .error (.badRadix base)

/-- What follows a separator, if a separator stands in front. -/
def behindSeparator? (reader : AnswerReader) (text : Text) : Option Text :=
  match text with
  | [] => none
  | c :: cs =>
    if c = groupMark then some cs
    else if reader.locale.thousands.isEmpty then none
    else reader.locale.thousands.isPrefixOf? text

theorem length_of_behindSeparator? {reader : AnswerReader} {text rest : Text}
    (h : reader.behindSeparator? text = some rest) : rest.length < text.length := by
  unfold behindSeparator? at h
  split at h
  · simp at h
  · split at h
    · simp_all
    · split at h
      · simp at h
      · next hne =>
        exact Text.length_of_isPrefixOf? (fun hnil => hne (by simp [hnil])) h

/-- The digits at the front of a text, separators passed over, and what follows. A character that is
a digit is read as a digit even where a separator begins with it. -/
def digits (reader : AnswerReader) (r : Radix) (text : Text) : List Nat × Text :=
  match text with
  | [] => ([], [])
  | c :: cs =>
    match r.digitValue? c with
    | some d =>
      let (ds, rest) := reader.digits r cs
      (d :: ds, rest)
    | none =>
      match h : reader.behindSeparator? (c :: cs) with
      | some behind =>
        have : behind.length < cs.length + 1 := length_of_behindSeparator? h
        reader.digits r behind
      | none => ([], c :: cs)
  termination_by text.length

/-- The radix in which an answer is read, and the text behind a prefix that belongs to it. -/
def readRadix (reader : AnswerReader) (text : Text) : Radix × Text :=
  match reader.radix?, Radix.ofPrefix? (text.take 2) with
  | some fixed, some shown => if fixed = shown then (fixed, text.drop 2) else (fixed, text)
  | some fixed, none => (fixed, text)
  | none, some shown => (shown, text.drop 2)
  | none, none => (.decimal, text)

/-- The digits behind a decimal separator, if one stands in front. -/
def readFraction (reader : AnswerReader) (r : Radix) (text : Text) : List Nat × Text :=
  match text with
  | [] => ([], [])
  | c :: cs => if c = reader.locale.point then reader.digits r cs else ([], c :: cs)

/-- The number that digits before and behind the decimal separator stand for, rounded at every
digit and at the division. -/
def valueOf (r : Radix) (negative : Bool) (whole fraction : List Nat) : Double :=
  let all := r.toDouble (whole ++ fraction)
  let magnitude :=
    if fraction.isEmpty then all else all / (Double.ofNat r.value).powNat fraction.length
  if negative then -magnitude else magnitude

/-- The answer that a text gives, if it has a digit where the number must stand. -/
def read? (reader : AnswerReader) (text : Text) : Option Answer :=
  let (negative, unsigned) := Numeral.readSign (text.filter (· != ' '))
  let (r, body) := reader.readRadix unsigned
  let (whole, afterWhole) := reader.digits r body
  let (fraction, unit) := reader.readFraction r afterWhole
  if whole.isEmpty && fraction.isEmpty then none
  else some ⟨valueOf r negative whole fraction, unit⟩

end AnswerReader

end RadixCalc
