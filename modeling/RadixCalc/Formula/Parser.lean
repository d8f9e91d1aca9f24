import RadixCalc.Failure
import RadixCalc.Formula.Basic
import RadixCalc.Formula.Token.Lexer

/-!
# From tokens to formulas

The grammar, from the loosest grouping to the tightest:

* an expression is a chain of binary operators, or a condition `c ? a : b` over one, whose branches
  are expressions;
* a chain of level `n` holds operators of level `n` and above, grouped to the left within a level;
* its operands are primaries behind any number of unary operators, and a primary may carry an
  exponent, which is such an operand again: so `-2^2` negates a square and `2^3^2` groups to the
  right;
* a primary is a number, a variable, an expression in parentheses, or a call.

Each reader takes the tokens from a point on and returns a tree with the tokens behind it, which are
fewer. `depth` counts the parentheses, argument lists and exponents around the point; at `maxDepth`
no operand may begin. A call is checked after its arguments, so of two bad calls the inner one is
reported.

* `Formula.ofTokens` reads a whole list of tokens, `Formula.ofText` a whole text.
-/

namespace RadixCalc

namespace Formula

/-- The nesting at which no operand may begin. -/
def maxDepth : Nat := 256

/-- The greatest number of tokens in a formula. -/
def maxTokens : Nat := 4096

/-- A formula that breaks the grammar. -/
def fault {α : Type} (f : FormulaFault) : Except Failure α :=
  .error (.badFormula f)

/-- What a reader found: a value, and the tokens behind it, fewer than a bound. -/
structure Parsed (α : Type) (bound : Nat) where
  value : α
  rest : List Token
  shorter : rest.length < bound

namespace Parsed

variable {α : Type} {bound : Nat}

/-- The tokens behind a symbol, where that symbol comes next. -/
def behind? (p : Parsed α bound) (s : Symbol) : Option {ts : List Token // ts.length + 1 < bound} :=
  match p with
  | ⟨_, [], _⟩ => none
  | ⟨_, t :: ts, h⟩ => if t = .symbol s then some ⟨ts, h⟩ else none

/-- The fault of what comes next: a misplaced token, or the given fault at the end. -/
def unexpected (p : Parsed α bound) (atEnd : FormulaFault) : FormulaFault :=
  match p.rest with
  | [] => atEnd
  | t :: _ => .misplaced [t]

end Parsed

mutual

/-- Reads an expression. -/
def parseExpression (depth : Nat) (ts : List Token) : Except Failure (Parsed Formula ts.length) :=
  match parseChain 1 depth ts with
  | .error e => .error e
  | .ok c =>
    match c.behind? .question with
    | none => .ok c
    | some ⟨ts₁, h₁⟩ =>
      match parseExpression depth ts₁ with
      | .error e => .error e
      | .ok a =>
        match a.behind? .colon with
        | none => fault (a.unexpected .unfinished)
        | some ⟨ts₂, h₂⟩ =>
          match parseExpression depth ts₂ with
          | .error e => .error e
          | .ok b => .ok ⟨.cond c.value a.value b.value, b.rest, by have := b.shorter; omega⟩
  termination_by 9 * ts.length + 6

/-- Reads a chain of binary operators of this level and above. -/
def parseChain (level depth : Nat) (ts : List Token) :
    Except Failure (Parsed Formula ts.length) :=
  match parseOperand depth ts with
  | .error e => .error e
  | .ok ⟨left, ts₁, h₁⟩ =>
    match parseChainFrom level depth left ts₁ with
    | .error e => .error e
    | .ok ⟨e, rest, h⟩ => .ok ⟨e, rest, by omega⟩
  termination_by 9 * ts.length + 5

/-- Continues a chain behind its left operand, as far as its operators go. -/
def parseChainFrom (level depth : Nat) (left : Formula) (ts : List Token) :
    Except Failure (Parsed Formula (ts.length + 1)) :=
  match ts with
  | [] => .ok ⟨left, [], by simp⟩
  | t :: ts₁ =>
    match t.binary? with
    | none => .ok ⟨left, t :: ts₁, by omega⟩
    | some (p, op) =>
      if p < level then .ok ⟨left, t :: ts₁, by omega⟩
      else
        match parseChain (p + 1) depth ts₁ with
        | .error e => .error e
        | .ok ⟨right, ts₂, h₂⟩ =>
          match parseChainFrom level depth (.binary op left right) ts₂ with
          | .error e => .error e
          | .ok ⟨e, rest, h⟩ => .ok ⟨e, rest, by simp; omega⟩
  termination_by 9 * ts.length + 0

/-- Reads an operand, one level deeper than its surroundings. -/
def parseOperand (depth : Nat) (ts : List Token) : Except Failure (Parsed Formula ts.length) :=
  if maxDepth ≤ depth then fault .tooDeep else parsePrefixed (depth + 1) ts
  termination_by 9 * ts.length + 4

/-- Reads a primary behind any number of unary operators. -/
def parsePrefixed (depth : Nat) (ts : List Token) : Except Failure (Parsed Formula ts.length) :=
  match ts with
  | [] => fault .unfinished
  | t :: ts₁ =>
    match t.unary? with
    | none => parsePower depth (t :: ts₁)
    | some op =>
      match parsePrefixed depth ts₁ with
      | .error e => .error e
      | .ok ⟨x, rest, h⟩ => .ok ⟨.unary op x, rest, by simp; omega⟩
  termination_by 9 * ts.length + 3

/-- Reads a primary and the exponent it may carry. -/
def parsePower (depth : Nat) (ts : List Token) : Except Failure (Parsed Formula ts.length) :=
  match parsePrimary depth ts with
  | .error e => .error e
  | .ok base =>
    match base.behind? .caret with
    | none => .ok base
    | some ⟨ts₁, h₁⟩ =>
      match parseOperand depth ts₁ with
      | .error e => .error e
      | .ok ⟨exponent, rest, h⟩ => .ok ⟨.binary .pow base.value exponent, rest, by omega⟩
  termination_by 9 * ts.length + 2

/-- Reads a number, a variable, a call or an expression in parentheses. -/
def parsePrimary (depth : Nat) (ts : List Token) : Except Failure (Parsed Formula ts.length) :=
  match ts with
  | [] => fault .unfinished
  | .number v :: rest => .ok ⟨.number v, rest, by simp⟩
  | .placeholder name :: rest => .ok ⟨.var name, rest, by simp⟩
  | .word name :: .symbol .openParen :: ts₁ =>
    match parseArguments depth ts₁ with
    | .error e => .error e
    | .ok ⟨args, rest, h⟩ =>
      match Builtin.ofName? name with
      | none => .error (.unsupportedFunction name)
      | some f =>
        if f.arity.accepts args.length then .ok ⟨.call f args, rest, by simp; omega⟩
        else .error (.badArity name f.arity)
  | .symbol .openParen :: ts₁ =>
    match parseArguments depth ts₁ with
    | .error e => .error e
    | .ok ⟨args, rest, h⟩ =>
      match args with
      | [e] => .ok ⟨e, rest, by simp; omega⟩
      | _ => fault (.misplaced (.symbol .openParen :: ts₁.take (ts₁.length - rest.length)))
  | t :: _ => fault (.misplaced [t])
  termination_by 9 * ts.length + 1

/-- Reads the arguments behind an opening parenthesis, and the closing parenthesis. -/
def parseArguments (depth : Nat) (ts : List Token) :
    Except Failure (Parsed (List Formula) ts.length) :=
  match ts with
  | .symbol .closeParen :: rest => .ok ⟨[], rest, by simp⟩
  | ts => parseItems depth ts
  termination_by 9 * ts.length + 8

/-- Reads one or more expressions with commas between them, and a closing parenthesis. -/
def parseItems (depth : Nat) (ts : List Token) :
    Except Failure (Parsed (List Formula) ts.length) :=
  match parseExpression depth ts with
  | .error e => .error e
  | .ok x =>
    match x.behind? .comma with
    | some ⟨ts₁, h₁⟩ =>
      match parseItems depth ts₁ with
      | .error e => .error e
      | .ok ⟨xs, rest, h⟩ => .ok ⟨x.value :: xs, rest, by omega⟩
    | none =>
      match x.behind? .closeParen with
      | some ⟨rest, h⟩ => .ok ⟨[x.value], rest, by omega⟩
      | none => fault (x.unexpected .unclosed)
  termination_by 9 * ts.length + 7

end

/-- The formula that a whole list of tokens spells. -/
def ofTokens (ts : List Token) : Except Failure Formula :=
  if ts.isEmpty then fault .empty
  else if maxTokens < ts.length then fault .tooLong
  else
    match parseExpression 0 ts with
    | .error e => .error e
    | .ok ⟨e, rest, _⟩ => if rest.isEmpty then .ok e else fault (.misplaced rest)

/-- The formula that a whole text spells. -/
def ofText (text : Text) : Except Failure Formula :=
  match Token.ofText text with
  | .error e => .error e
  | .ok ts => ofTokens ts

end Formula

end RadixCalc
