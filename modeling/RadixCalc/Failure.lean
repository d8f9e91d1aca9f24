import RadixCalc.Formula.Builtin
import RadixCalc.Formula.Token
import RadixCalc.Text.Quoted

/-!
# Failures

Everything that can go wrong, by its cause, and the message that tells a reader about it. Reading a
formula fails in three ways, which `Failure.isFormulaFailure` gathers; the other failures are about
numbers, layouts, variables and settings.
-/

namespace RadixCalc

/-- What breaks the grammar of formulas. -/
inductive FormulaFault where
  /-- A stretch of text at which no token begins. -/
  | illegalText (excerpt : Text)
  /-- Tokens where the grammar does not allow them. -/
  | misplaced (tokens : List Token)
  /-- No token at all. -/
  | empty
  /-- More tokens than are allowed. -/
  | tooLong
  /-- More nesting than is allowed. -/
  | tooDeep
  /-- The formula ends where an operand or a colon must follow. -/
  | unfinished
  /-- The formula ends inside parentheses. -/
  | unclosed
  deriving DecidableEq, Repr

/-- What makes a layout unusable. -/
inductive LayoutFault where
  /-- A text that is no layout directive. -/
  | directive (text : Text)
  /-- A width above the limit. -/
  | width (integers fraction : Nat)
  deriving DecidableEq, Repr

/-- What makes settings unusable. -/
inductive SettingsFault where
  /-- The decimal separator is not exactly one character. -/
  | decimalSeparator (separator : Text)
  /-- The two separators are the same. -/
  | sameSeparators (separator : Text)
  /-- The settings cannot be decoded. -/
  | json
  deriving DecidableEq, Repr

/-- The reasons for which a request fails. -/
inductive Failure where
  /-- A base outside the range of radices, or one without bits where bits are masked. -/
  | badRadix (base : Nat)
  /-- A variable is given by a text that is no number. -/
  | notNumeric (name text : Text)
  /-- A formula uses a variable without a value. -/
  | unboundVariable (name : Text)
  /-- A formula breaks the grammar. -/
  | badFormula (fault : FormulaFault)
  /-- A function is called with a wrong number of arguments. -/
  | badArity (function : Text) (arity : Arity)
  /-- A formula calls something that is no function. -/
  | unsupportedFunction (name : Text)
  /-- A layout cannot be used. -/
  | badLayout (fault : LayoutFault)
  /-- Settings cannot be used. -/
  | badSettings (fault : SettingsFault)
  deriving DecidableEq, Repr

/-- The greatest number of digits in a part of a layout. -/
def maxDigits : Nat := 64

/-- The fault in words, or the offending words themselves. -/
def FormulaFault.toText : FormulaFault → Text
  | illegalText excerpt => excerpt
  | misplaced tokens => Token.listText tokens
  | empty => "formule vide".toList
  | tooLong => "formule trop longue".toList
  | tooDeep => "formule trop imbriquée".toList
  | unfinished => "fin de formule inattendue".toList
  | unclosed => "parenthèses non fermées".toList

/-- The text that a message about a layout quotes. -/
def LayoutFault.toText : LayoutFault → Text
  | directive text => text
  | width integers fraction =>
    numeral 10 integers ++ '.' :: numeral 10 fraction ++ " (au plus ".toList ++
      numeral 10 maxDigits ++ " chiffres par partie)".toList

/-- The fault in words. -/
def SettingsFault.toText : SettingsFault → Text
  | decimalSeparator separator =>
    "le séparateur décimal doit être un seul caractère : ".toList ++ separator.quoted
  | sameSeparators separator =>
    "séparateurs décimal et des milliers identiques : ".toList ++ separator.quoted
  | json => "JSON invalide".toList

namespace Failure

/-- The message that tells a reader about the failure. -/
def message : Failure → Text
  | badRadix base =>
    "base invalide : ".toList ++ numeral 10 base ++ " (attendu entre 2 et 36)".toList
  | notNumeric name text =>
    "la variable ".toList ++ inBraces name ++ " n’est pas un nombre valide : ".toList ++ text.quoted
  | unboundVariable name => "variable inconnue : ".toList ++ inBraces name
  | badFormula fault => "syntaxe de formule illégale : ".toList ++ fault.toText
  | badArity function arity => "la fonction ".toList ++ function ++ ' ' :: arity.toText
  | unsupportedFunction name => "fonction non supportée : ".toList ++ name
  | badLayout fault => "format de nombre invalide : ".toList ++ fault.toText.quoted
  | badSettings fault => "réglages invalides : ".toList ++ fault.toText

/-- Tells whether the failure was found while a formula was read, before any value was computed. -/
def isFormulaFailure : Failure → Bool
  | badFormula _ => true
  | badArity _ _ => true
  | unsupportedFunction _ => true
  | _ => false

end Failure

end RadixCalc
