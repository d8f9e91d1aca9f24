import RadixCalc.Formula.Builtin
import RadixCalc.Formula.Token

/-!
# Formulas

A formula is a tree over numbers and variables. The symbols of the operators, the strength with
which they bind and the display of a tree are settled here.

* `Formula` is the tree, `Formula.variableNames` the names it uses, in the order of their first use.
* `Symbol.binary?` gives the binary operator of a symbol with its level; a higher level binds
  tighter, and operators of one level group to the left. The power stands outside the levels: it
  binds tighter than all of them and groups to the right.
* `Formula.toText` shows a tree with every grouping written out.
-/

namespace RadixCalc

/-! ## Operators -/

/-- The operators in front of an operand. -/
inductive UnaryOp where
  | neg
  | plus
  | not
  | bitNot
  deriving DecidableEq, Repr

/-- The operators between two operands. -/
inductive BinaryOp where
  | add
  | sub
  | mul
  | div
  | rem
  | pow
  | eq
  | ne
  | lt
  | le
  | gt
  | ge
  | shiftLeft
  | shiftRight
  | bitAnd
  | bitOr
  | and
  | or
  deriving DecidableEq, Repr

/-- The unary operator that a symbol stands for in front of an operand. -/
def Symbol.unary? : Symbol → Option UnaryOp
  | minus => some .neg
  | plus => some .plus
  | bang => some .not
  | tilde => some .bitNot
  | _ => none

/-- The unary operator that a token stands for in front of an operand. -/
def Token.unary? : Token → Option UnaryOp
  | symbol s => s.unary?
  | _ => none

/-- The binary operator that a symbol stands for, and its level. -/
def Symbol.binary? : Symbol → Option (Nat × BinaryOp)
  | or => some (1, .or)
  | and => some (2, .and)
  | bitOr => some (3, .bitOr)
  | bitAnd => some (4, .bitAnd)
  | equal => some (5, .eq)
  | notEqual => some (5, .ne)
  | less => some (6, .lt)
  | lessEqual => some (6, .le)
  | greater => some (6, .gt)
  | greaterEqual => some (6, .ge)
  | shiftLeft => some (7, .shiftLeft)
  | shiftRight => some (7, .shiftRight)
  | plus => some (8, .add)
  | minus => some (8, .sub)
  | star => some (9, .mul)
  | slash => some (9, .div)
  | percent => some (9, .rem)
  | _ => none

/-- The binary operator that a token stands for, and its level. -/
def Token.binary? : Token → Option (Nat × BinaryOp)
  | symbol s => s.binary?
  | _ => none

/-- The symbol that shows a unary operator. -/
def UnaryOp.symbol : UnaryOp → Symbol
  | neg => .minus
  | plus => .plus
  | not => .bang
  | bitNot => .tilde

/-- The symbol that shows a binary operator. -/
def BinaryOp.symbol : BinaryOp → Symbol
  | add => .plus
  | sub => .minus
  | mul => .star
  | div => .slash
  | rem => .percent
  | pow => .caret
  | eq => .equal
  | ne => .notEqual
  | lt => .less
  | le => .lessEqual
  | gt => .greater
  | ge => .greaterEqual
  | shiftLeft => .shiftLeft
  | shiftRight => .shiftRight
  | bitAnd => .bitAnd
  | bitOr => .bitOr
  | and => .and
  | or => .or

/-! ## Trees -/

/-- A formula. -/
inductive Formula where
  /-- A number literal. -/
  | number (value : Double)
  /-- The value of a variable. -/
  | var (name : Text)
  /-- An operator in front of an operand. -/
  | unary (op : UnaryOp) (operand : Formula)
  /-- An operator between two operands. -/
  | binary (op : BinaryOp) (left right : Formula)
  /-- The choice between two branches. -/
  | cond (condition yes no : Formula)
  /-- The call of a function. -/
  | call (function : Builtin) (arguments : List Formula)
  deriving Repr

namespace Formula

mutual

/-- The names of the variables in a formula, from left to right, as often as they occur. -/
def names : Formula → List Text
  | number _ => []
  | var name => [name]
  | unary _ x => x.names
  | binary _ a b => a.names ++ b.names
  | cond c a b => c.names ++ a.names ++ b.names
  | call _ args => namesOfAll args

/-- The names of the variables in a list of formulas. -/
def namesOfAll : List Formula → List Text
  | [] => []
  | x :: xs => x.names ++ namesOfAll xs

end

/-- The names of the variables in a formula, each once, in the order of their first occurrence. -/
def variableNames (e : Formula) : List Text :=
  e.names.eraseDups

mutual

/-- The formula with every grouping written out and no spaces. -/
def toText : Formula → Text
  | number v => v.toText
  | var name => inBraces name
  | unary op x => op.symbol.toText ++ '(' :: x.toText ++ [')']
  | binary op a b => '(' :: a.toText ++ op.symbol.toText ++ b.toText ++ [')']
  | cond c a b => '(' :: c.toText ++ '?' :: a.toText ++ ':' :: b.toText ++ [')']
  | call f args => f.name ++ '(' :: [','].intercalate (textsOfAll args) ++ [')']

/-- The texts of a list of formulas. -/
def textsOfAll : List Formula → List Text
  | [] => []
  | x :: xs => x.toText :: textsOfAll xs

end

end Formula

end RadixCalc
