import RadixCalc.Failure
import RadixCalc.Formula.Builtin.Value
import RadixCalc.Formula.Parser
import RadixCalc.Text.Blank

/-!
# Values of formulas

Every number is true but zero, and truth is shown as 1 or 0. The bitwise operators and the shifts
work on the integer parts as 64-bit words. Where the left operand of `&&` or `||` decides, the right
one is not looked at, and a condition looks at one branch only; so a variable without a value fails
a formula only where it is needed. Nothing else fails.

* `Formula.eval` is the value of a tree, `Formula.valueOfText` that of a text.
* `Formula.check` reads a text without a value for its variables.
-/

namespace RadixCalc

namespace Double

/-- Tells whether a number counts as true. -/
def isTrue (x : Double) : Bool :=
  !x.isZero

/-- A count of bits as a 32-bit word without a sign, if it is one. -/
def toCount? (count : Int64) : Option UInt32 :=
  if 0 ≤ count.toInt ∧ count.toInt < UInt32.size then some (.ofNat count.toInt.toNat) else none

/-- A 64-bit word shifted to the left by a count below its width. -/
def shiftLeft? (word : Int64) (count : UInt32) : Option Int64 :=
  if count < 64 then some (word <<< .ofNat count.toNat) else none

/-- A 64-bit word shifted to the right under its sign by a count below its width. -/
def shiftRight? (word : Int64) (count : UInt32) : Option Int64 :=
  if count < 64 then some (word >>> .ofNat count.toNat) else none

/-- A 64-bit word shifted to the left; where the count cannot be shifted by, nothing is left. -/
def shiftWordLeft (word count : Int64) : Int64 :=
  ((toCount? count).bind (shiftLeft? word)).getD 0

/-- A 64-bit word shifted to the right under its sign; where the count cannot be shifted by, the
sign is left. -/
def shiftWordRight (word count : Int64) : Int64 :=
  ((toCount? count).bind (shiftRight? word)).getD (if word < 0 then -1 else 0)

/-- An operation on 64-bit words applied to integer parts. -/
def onWords (f : Int64 → Int64 → Int64) (x y : Double) : Double :=
  ofInt64 (f x.toInt64 y.toInt64)

end Double

open Double (ofBool)

/-- What a unary operator does to its operand. -/
def UnaryOp.apply (op : UnaryOp) (x : Double) : Double :=
  match op with
  | neg => -x
  | plus => x
  | not => ofBool !x.isTrue
  | bitNot => .ofInt64 (~~~x.toInt64)

namespace BinaryOp

/-- What a binary operator makes of its operands. -/
def apply (op : BinaryOp) (x y : Double) : Double :=
  match op with
  | add => x + y
  | sub => x - y
  | mul => x * y
  | div => x / y
  | rem => x.remainder y
  | pow => .viaFloat₂ Float.pow x y
  | eq => ofBool (x.eq y)
  | ne => ofBool !x.eq y
  | lt => ofBool (x.lt y)
  | le => ofBool (x.le y)
  | gt => ofBool (y.lt x)
  | ge => ofBool (y.le x)
  | shiftLeft => .onWords Double.shiftWordLeft x y
  | shiftRight => .onWords Double.shiftWordRight x y
  | bitAnd => .onWords (· &&& ·) x y
  | bitOr => .onWords (· ||| ·) x y
  | and => ofBool (x.isTrue && y.isTrue)
  | or => ofBool (x.isTrue || y.isTrue)

/-- The result that the left operand decides alone, if it does. -/
def decided? (op : BinaryOp) (x : Double) : Option Double :=
  match op with
  | and => if x.isTrue then none else some (ofBool false)
  | or => if x.isTrue then some (ofBool true) else none
  | _ => none

end BinaryOp

/-- The values of the variables. -/
abbrev Environment := Text → Option Double

namespace Formula

mutual

/-- The value of a formula. -/
def eval (env : Environment) : Formula → Except Failure Double
  | number v => .ok v
  | var name =>
    match env name with
    | some v => .ok v
    | none => .error (.unboundVariable name)
  | unary op x =>
    match x.eval env with
    | .error e => .error e
    | .ok v => .ok (op.apply v)
  | binary op a b =>
    match a.eval env with
    | .error e => .error e
    | .ok x =>
      match op.decided? x with
      | some v => .ok v
      | none =>
        match b.eval env with
        | .error e => .error e
        | .ok y => .ok (op.apply x y)
  | cond c a b =>
    match c.eval env with
    | .error e => .error e
    | .ok x => if x.isTrue then a.eval env else b.eval env
  | call f args =>
    match evalAll env args with
    | .error e => .error e
    | .ok vs => .ok (f.value vs)

/-- The values of a list of formulas, from left to right. -/
def evalAll (env : Environment) : List Formula → Except Failure (List Double)
  | [] => .ok []
  | x :: xs =>
    match x.eval env with
    | .error e => .error e
    | .ok v =>
      match evalAll env xs with
      | .error e => .error e
      | .ok vs => .ok (v :: vs)

end

/-- The value of a formula given as text, with blanks around it ignored. -/
def valueOfText (env : Environment) (text : Text) : Except Failure Double :=
  match ofText text.trim with
  | .error e => .error e
  | .ok e => e.eval env

/-- What is wrong with a formula given as text, with blanks around it ignored, whatever the values
of its variables. -/
def check (text : Text) : Except Failure Unit :=
  match ofText text.trim with
  | .error e => .error e
  | .ok _ => .ok ()

end Formula

end RadixCalc
