import RadixCalc.Text.GraphemeExtend
import RadixCalc.Text.Unprintable

/-!
# Quoted text

Messages quote the text they complain about, so that what cannot be seen can still be read: the
quotation mark and the backslash are escaped by a backslash, four controls have a letter, and any
other character that is unprintable or extends its neighbour is written by its code point.
-/

namespace RadixCalc.Text

/-- The digits of a code point in lowercase hexadecimal. -/
def hexDigits (n : Nat) : Text :=
  Nat.toDigits 16 n

/-- One character inside quotation marks. -/
def escapeChar (c : Char) : Text :=
  match c with
  | '\x00' => ['\\', '0']
  | '\t' => ['\\', 't']
  | '\n' => ['\\', 'n']
  | '\r' => ['\\', 'r']
  | '"' => ['\\', '"']
  | '\\' => ['\\', '\\']
  | _ =>
    if isGraphemeExtend c || isUnprintable c then
      ['\\', 'u', '\x7b'] ++ hexDigits c.toNat ++ ['\x7d']
    else [c]

/-- The text between quotation marks. -/
def quoted (text : Text) : Text :=
  '"' :: text.flatMap escapeChar ++ ['"']

end RadixCalc.Text
