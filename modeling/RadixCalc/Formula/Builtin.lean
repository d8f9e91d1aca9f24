import RadixCalc.Text.Basic

/-!
# Built-in functions

The functions that a formula may call, with their names and the numbers of arguments they take. A
name outside this list is no function. What the functions compute is in
`RadixCalc.Formula.Builtin.Value`.
-/

namespace RadixCalc

/-- The numbers of arguments that a function takes. -/
inductive Arity where
  | none
  | one
  | oneOrTwo
  | two
  | twoOrMore
  deriving DecidableEq, Repr

/-- Tells whether this many arguments are allowed. -/
def Arity.accepts (arity : Arity) (count : Nat) : Bool :=
  match arity with
  | none => count = 0
  | one => count = 1
  | oneOrTwo => count = 1 || count = 2
  | two => count = 2
  | twoOrMore => 2 ≤ count

/-- The arity as the end of a sentence about a function. -/
def Arity.toText : Arity → Text
  | none => "ne prend aucun argument".toList
  | one => "prend exactement un argument".toList
  | oneOrTwo => "prend un ou deux arguments".toList
  | two => "prend exactement deux arguments".toList
  | twoOrMore => "prend au moins deux arguments".toList

/-- A function that formulas may call. -/
inductive Builtin where
  | pi
  | abs
  | acos
  | acosh
  | asin
  | asinh
  | atan
  | atanh
  | bindec
  | ceil
  | cos
  | cosh
  | decbin
  | decoct
  | deg2rad
  | exp
  | expm1
  | floor
  | isFinite
  | isInfinite
  | isNan
  | log10
  | log1p
  | octdec
  | rad2deg
  | sin
  | sinh
  | sqrt
  | tan
  | tanh
  | log
  | round
  | atan2
  | fmod
  | pow
  | min
  | max
  deriving DecidableEq, Repr

namespace Builtin

/-- The name under which formulas call the function. -/
def name : Builtin → Text
  | pi => "pi".toList
  | abs => "abs".toList
  | acos => "acos".toList
  | acosh => "acosh".toList
  | asin => "asin".toList
  | asinh => "asinh".toList
  | atan => "atan".toList
  | atanh => "atanh".toList
  | bindec => "bindec".toList
  | ceil => "ceil".toList
  | cos => "cos".toList
  | cosh => "cosh".toList
  | decbin => "decbin".toList
  | decoct => "decoct".toList
  | deg2rad => "deg2rad".toList
  | exp => "exp".toList
  | expm1 => "expm1".toList
  | floor => "floor".toList
  | isFinite => "is_finite".toList
  | isInfinite => "is_infinite".toList
  | isNan => "is_nan".toList
  | log10 => "log10".toList
  | log1p => "log1p".toList
  | octdec => "octdec".toList
  | rad2deg => "rad2deg".toList
  | sin => "sin".toList
  | sinh => "sinh".toList
  | sqrt => "sqrt".toList
  | tan => "tan".toList
  | tanh => "tanh".toList
  | log => "log".toList
  | round => "round".toList
  | atan2 => "atan2".toList
  | fmod => "fmod".toList
  | pow => "pow".toList
  | min => "min".toList
  | max => "max".toList

/-- All functions. -/
def all : List Builtin :=
  [pi, abs, acos, acosh, asin, asinh, atan, atanh, bindec, ceil, cos, cosh, decbin, decoct, deg2rad,
   exp, expm1, floor, isFinite, isInfinite, isNan, log10, log1p, octdec, rad2deg, sin, sinh, sqrt,
   tan, tanh, log, round, atan2, fmod, pow, min, max]

/-- The function of this name. -/
def ofName? (name : Text) : Option Builtin :=
  all.find? fun f => f.name = name

/-- The numbers of arguments the function takes. -/
def arity : Builtin → Arity
  | pi => .none
  | log | round => .oneOrTwo
  | atan2 | fmod | pow => .two
  | min | max => .twoOrMore
  | _ => .one

end Builtin

end RadixCalc
