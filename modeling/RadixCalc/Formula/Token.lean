import RadixCalc.Decimal.Shortest

/-!
# Tokens

The words of a formula: numbers, names of variables in braces, names of functions, and symbols. A
symbol may have several spellings; the text of a token uses the first of them, and the text of a
list of tokens puts one space between two tokens.
-/

namespace RadixCalc

/-- The operators and the punctuation of formulas. -/
inductive Symbol where
  | plus
  | minus
  | star
  | slash
  | percent
  | caret
  | tilde
  | bang
  | less
  | lessEqual
  | greater
  | greaterEqual
  | equal
  | notEqual
  | shiftLeft
  | shiftRight
  | bitAnd
  | and
  | bitOr
  | or
  | question
  | colon
  | comma
  | openParen
  | closeParen
  deriving DecidableEq, Repr

/-- A word of a formula. -/
inductive Token where
  /-- A number literal. -/
  | number (value : Double)
  /-- A variable, by its name without the braces. -/
  | placeholder (name : Text)
  /-- The name of a function, in small letters. -/
  | word (name : Text)
  /-- An operator or a mark of punctuation. -/
  | symbol (symbol : Symbol)
  deriving DecidableEq, Repr

/-- The text of a symbol. -/
def Symbol.toText : Symbol → Text
  | plus => ['+']
  | minus => ['-']
  | star => ['*']
  | slash => ['/']
  | percent => ['%']
  | caret => ['^']
  | tilde => ['~']
  | bang => ['!']
  | less => ['<']
  | lessEqual => ['<', '=']
  | greater => ['>']
  | greaterEqual => ['>', '=']
  | equal => ['=', '=']
  | notEqual => ['!', '=']
  | shiftLeft => ['<', '<']
  | shiftRight => ['>', '>']
  | bitAnd => ['&']
  | and => ['&', '&']
  | bitOr => ['|']
  | or => ['|', '|']
  | question => ['?']
  | colon => [':']
  | comma => [',']
  | openParen => ['(']
  | closeParen => [')']

/-- A name between braces. -/
def inBraces (name : Text) : Text :=
  '\x7b' :: name ++ ['\x7d']

namespace Token

/-- The text of a token. -/
def toText : Token → Text
  | number value => value.toText
  | placeholder name => inBraces name
  | word name => name
  | symbol s => s.toText

/-- The text of a list of tokens, with a space between two of them. -/
def listText (tokens : List Token) : Text :=
  [' '].intercalate (tokens.map toText)

end Token

end RadixCalc
