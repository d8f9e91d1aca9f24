import Mathlib
import RadixCalc.Proofs.Formula.Reading

/-!
# The grammar of formulas

The grammar of `RadixCalc.Formula.Parser` as data: a derivation is a value of the types below, one
type for each phrase. With `E` an expression, `U` an operand, `P` a power and `A` a primary, the
rules are

    E   ::= B1 | B1 ? E : E
    Bn  ::= Bn+1 (op Bn+1)*          op an operator of level n, for n = 1, ..., 9
    B10 ::= U
    U   ::= (- | + | ! | ~)* P
    P   ::= A | A ^ U
    A   ::= number | placeholder | ( E ) | name ( ) | name ( E , ... , E )

and a call names a built-in function that takes as many arguments as are written. A derivation says
three things of itself, and none of them mentions a reader:

* `tokens` is the list of tokens it derives,
* `formula` is the tree it builds, the operators of a chain grouped to the left,
* `nesting` is the greatest number of parentheses, argument lists and exponents around an operand.

The file ends with what the tokens of a phrase can begin with, and with the two ways in which chains
are built up: a chain of tighter operators is one of looser operators (`Chain.exists_loosen`), and a
chain can go on with one more operand (`Chain.exists_snoc`).
-/

namespace RadixCalc.Grammar

open Formula (behind?)

/-! ## Operators -/

/-- The operators of a level; a higher level binds tighter. -/
def operatorsAt : Nat → List BinaryOp
  | 1 => [.or]
  | 2 => [.and]
  | 3 => [.bitOr]
  | 4 => [.bitAnd]
  | 5 => [.eq, .ne]
  | 6 => [.lt, .le, .gt, .ge]
  | 7 => [.shiftLeft, .shiftRight]
  | 8 => [.add, .sub]
  | 9 => [.mul, .div, .rem]
  | _ => []

theorem level_bounds {n : Nat} {op : BinaryOp} (h : op ∈ operatorsAt n) : 1 ≤ n ∧ n ≤ 9 := by
  unfold operatorsAt at h
  split at h <;> first | omega | simp at h

theorem binary?_symbol {n : Nat} {op : BinaryOp} (h : op ∈ operatorsAt n) :
    op.symbol.binary? = some (n, op) := by
  unfold operatorsAt at h
  split at h <;> fin_cases h <;> rfl

/-- What the readers take for a binary operator is the symbol of an operator of its level. -/
theorem token_of_binary? {t : Token} {n : Nat} {op : BinaryOp} (h : t.binary? = some (n, op)) :
    op ∈ operatorsAt n ∧ t = .symbol op.symbol := by
  cases t with
  | symbol s =>
    cases s <;> simp [Token.binary?, Symbol.binary?] at h <;> obtain ⟨rfl, rfl⟩ := h <;> decide
  | number | placeholder | word => cases h

theorem token_of_unary? {t : Token} {op : UnaryOp} (h : t.unary? = some op) :
    t = .symbol op.symbol := by
  cases t with
  | symbol s => cases s <;> cases h <;> rfl
  | number | placeholder | word => cases h

theorem unary?_symbol (op : UnaryOp) : (Token.symbol op.symbol).unary? = some op := by
  cases op <;> rfl

theorem eq_of_unary_symbol_eq {op₁ op₂ : UnaryOp} (h : op₁.symbol = op₂.symbol) : op₁ = op₂ := by
  have h₁ := unary?_symbol op₁
  rw [h, unary?_symbol op₂] at h₁
  exact (Option.some.inj h₁).symm

theorem eq_of_symbol_eq {n : Nat} {op₁ op₂ : BinaryOp} (h₁ : op₁ ∈ operatorsAt n)
    (h₂ : op₂ ∈ operatorsAt n) (h : op₁.symbol = op₂.symbol) : op₁ = op₂ := by
  have h' := binary?_symbol h₁
  rw [h, binary?_symbol h₂] at h'
  simpa using h'.symm

theorem ofName?_name (f : Builtin) : Builtin.ofName? f.name = some f := by
  cases f <;> decide

theorem name_of_ofName? {name : Text} {f : Builtin} (h : Builtin.ofName? name = some f) :
    f.name = name := by
  simpa using List.find?_some h

theorem eq_of_name_eq {f g : Builtin} (h : f.name = g.name) : f = g :=
  Option.some.inj ((ofName?_name f).symm.trans (h ▸ ofName?_name g))

/-! ## Derivations -/

mutual

/-- A chain, or a condition over one. -/
inductive Expression : Type where
  | chain (c : Chain 1)
  | cond (c : Chain 1) (yes no : Expression)

/-- Operands of the next level with operators of this level between them. -/
inductive Chain : Nat → Type where
  | operand (u : Operand) : Chain 10
  | level {n : Nat} (h : n < 10) (head : Chain (n + 1)) (tail : Tail n) : Chain n

/-- What follows the first operand of a chain. -/
inductive Tail : Nat → Type where
  | nil {n : Nat} : Tail n
  | cons {n : Nat} (op : BinaryOp) (h : op ∈ operatorsAt n) (next : Chain (n + 1))
      (rest : Tail n) : Tail n

/-- A power behind any number of unary operators. -/
inductive Operand : Type where
  | mk (ops : List UnaryOp) (p : Power)

/-- A primary with the exponent it may carry. -/
inductive Power : Type where
  | plain (a : Primary)
  | raised (a : Primary) (exponent : Operand)

/-- A number, a variable, an expression in parentheses, or a call. -/
inductive Primary : Type where
  | number (v : Double)
  | var (name : Text)
  | group (e : Expression)
  | constant (f : Builtin) (h : f.arity.accepts 0 = true)
  | call {n : Nat} (f : Builtin) (args : Arguments n) (h : f.arity.accepts n = true)

/-- One or more expressions with commas between them, by their number. -/
inductive Arguments : Nat → Type where
  | last (e : Expression) : Arguments 1
  | more {n : Nat} (e : Expression) (rest : Arguments n) : Arguments (n + 1)

end

mutual

/-- The tokens that an expression derives. -/
def Expression.tokens : Expression → List Token
  | .chain c => c.tokens
  | .cond c yes no =>
    c.tokens ++ .symbol .question :: (yes.tokens ++ .symbol .colon :: no.tokens)

/-- The tokens that a chain derives. -/
def Chain.tokens {n : Nat} : Chain n → List Token
  | .operand u => u.tokens
  | .level _ head tail => head.tokens ++ tail.tokens

/-- The tokens that the rest of a chain derives. -/
def Tail.tokens {n : Nat} : Tail n → List Token
  | .nil => []
  | .cons op _ next rest => .symbol op.symbol :: (next.tokens ++ rest.tokens)

/-- The tokens that an operand derives. -/
def Operand.tokens : Operand → List Token
  | .mk ops p => ops.map (fun op => .symbol op.symbol) ++ p.tokens

/-- The tokens that a power derives. -/
def Power.tokens : Power → List Token
  | .plain a => a.tokens
  | .raised a exponent => a.tokens ++ .symbol .caret :: exponent.tokens

/-- The tokens that a primary derives. -/
def Primary.tokens : Primary → List Token
  | .number v => [.number v]
  | .var name => [.placeholder name]
  | .group e => .symbol .openParen :: (e.tokens ++ [.symbol .closeParen])
  | .constant f _ => [.word f.name, .symbol .openParen, .symbol .closeParen]
  | .call f args _ =>
    .word f.name :: .symbol .openParen :: (args.tokens ++ [.symbol .closeParen])

/-- The tokens that a list of arguments derives, without the parentheses. -/
def Arguments.tokens {n : Nat} : Arguments n → List Token
  | .last e => e.tokens
  | .more e rest => e.tokens ++ .symbol .comma :: rest.tokens

end

mutual

/-- The tree that an expression builds. -/
def Expression.formula : Expression → Formula
  | .chain c => c.formula
  | .cond c yes no => .cond c.formula yes.formula no.formula

/-- The tree that a chain builds. -/
def Chain.formula {n : Nat} : Chain n → Formula
  | .operand u => u.formula
  | .level _ head tail => tail.formula head.formula

/-- The tree that a chain builds, from the tree of what stands before its rest. -/
def Tail.formula {n : Nat} : Tail n → Formula → Formula
  | .nil, left => left
  | .cons op _ next rest, left => rest.formula (.binary op left next.formula)

/-- The tree that an operand builds; the last unary operator stands innermost. -/
def Operand.formula : Operand → Formula
  | .mk ops p => ops.foldr .unary p.formula

/-- The tree that a power builds. -/
def Power.formula : Power → Formula
  | .plain a => a.formula
  | .raised a exponent => .binary .pow a.formula exponent.formula

/-- The tree that a primary builds. -/
def Primary.formula : Primary → Formula
  | .number v => .number v
  | .var name => .var name
  | .group e => e.formula
  | .constant f _ => .call f []
  | .call f args _ => .call f args.formulas

/-- The trees that a list of arguments builds. -/
def Arguments.formulas {n : Nat} : Arguments n → List Formula
  | .last e => [e.formula]
  | .more e rest => e.formula :: rest.formulas

end

mutual

/-- The greatest number of parentheses, argument lists and exponents, counted together, around an
operand of an expression. -/
def Expression.nesting : Expression → Nat
  | .chain c => c.nesting
  | .cond c yes no => max c.nesting (max yes.nesting no.nesting)

/-- The nesting of a chain. -/
def Chain.nesting {n : Nat} : Chain n → Nat
  | .operand u => u.nesting
  | .level _ head tail => max head.nesting tail.nesting

/-- The nesting of the rest of a chain. -/
def Tail.nesting {n : Nat} : Tail n → Nat
  | .nil => 0
  | .cons _ _ next rest => max next.nesting rest.nesting

/-- The nesting of an operand. -/
def Operand.nesting : Operand → Nat
  | .mk _ p => p.nesting

/-- The nesting of a power. -/
def Power.nesting : Power → Nat
  | .plain a => a.nesting
  | .raised a exponent => max a.nesting (exponent.nesting + 1)

/-- The nesting of a primary. -/
def Primary.nesting : Primary → Nat
  | .number _ => 0
  | .var _ => 0
  | .group e => e.nesting + 1
  | .constant _ _ => 0
  | .call _ args _ => args.nesting + 1

/-- The nesting of a list of arguments. -/
def Arguments.nesting {n : Nat} : Arguments n → Nat
  | .last e => e.nesting
  | .more e rest => max e.nesting rest.nesting

end

theorem Operand.tokens_cons (op : UnaryOp) (ops : List UnaryOp) (p : Power) :
    (Operand.mk (op :: ops) p).tokens = .symbol op.symbol :: (Operand.mk ops p).tokens := rfl

theorem Arguments.length_formulas : {n : Nat} → (args : Arguments n) → args.formulas.length = n
  | _, .last _ => rfl
  | _, .more _ rest => by rw [Arguments.formulas, List.length_cons, rest.length_formulas]

theorem Arguments.formulas_ne_nil {n : Nat} (args : Arguments n) : args.formulas ≠ [] := by
  cases args <;> exact List.cons_ne_nil _ _

/-! ## First tokens -/

/-- The tokens begin, and not with a closing parenthesis. -/
def Opens (ts : List Token) : Prop :=
  ∃ t rest, ts = t :: rest ∧ t ≠ .symbol .closeParen

theorem Opens.append {ts : List Token} (h : Opens ts) (more : List Token) : Opens (ts ++ more) := by
  obtain ⟨t, rest, rfl, ht⟩ := h
  exact ⟨t, rest ++ more, rfl, ht⟩

theorem Opens.behind?_close {ts : List Token} (h : Opens ts) : behind? .closeParen ts = none := by
  obtain ⟨t, rest, rfl, ht⟩ := h
  exact if_neg ht

theorem Primary.tokens_eq_cons (a : Primary) :
    ∃ t rest, a.tokens = t :: rest ∧ t ≠ .symbol .closeParen ∧ t.unary? = none := by
  cases a <;> exact ⟨_, _, rfl, by simp, rfl⟩

theorem Power.tokens_eq_cons (p : Power) :
    ∃ t rest, p.tokens = t :: rest ∧ t ≠ .symbol .closeParen ∧ t.unary? = none := by
  cases p with
  | plain a => exact a.tokens_eq_cons
  | raised a exponent =>
    obtain ⟨t, rest, h, ht⟩ := a.tokens_eq_cons
    exact ⟨t, _, by rw [Power.tokens, h, List.cons_append], ht⟩

theorem Operand.opens (u : Operand) : Opens u.tokens := by
  obtain ⟨ops, p⟩ := u
  obtain ⟨t, rest, h, ht, -⟩ := p.tokens_eq_cons
  cases ops with
  | nil => exact ⟨t, rest, h, ht⟩
  | cons op ops => exact ⟨_, _, rfl, by cases op <;> simp [UnaryOp.symbol]⟩

theorem Chain.opens : {n : Nat} → (c : Chain n) → Opens c.tokens
  | _, .operand u => u.opens
  | _, .level _ head _ => head.opens.append _

theorem Expression.opens (e : Expression) : Opens e.tokens := by
  cases e with
  | chain c => exact c.opens
  | cond c yes no => exact c.opens.append _

theorem Arguments.opens {n : Nat} (args : Arguments n) : Opens args.tokens := by
  cases args with
  | last e => exact e.opens
  | more e rest => exact e.opens.append _

/-! ## What ends a phrase -/

/-- The tokens do not go on with an exponent or with an operator of this level or above, so a chain
of this level ends in front of them. -/
def StopsChain (level : Nat) : List Token → Prop
  | [] => True
  | t :: _ => t ≠ .symbol .caret ∧ ∀ q ∈ t.binary?, q.1 < level

/-- An expression ends in front of the tokens. -/
def StopsExpression (ts : List Token) : Prop :=
  StopsChain 1 ts ∧ behind? .question ts = none

theorem StopsChain.mono {m n : Nat} (h : m ≤ n) {ts : List Token} (hs : StopsChain m ts) :
    StopsChain n ts := by
  cases ts with
  | nil => trivial
  | cons t ts => exact ⟨hs.1, fun q hq => lt_of_lt_of_le (hs.2 q hq) h⟩

theorem StopsChain.behind?_caret {n : Nat} {ts : List Token} (h : StopsChain n ts) :
    behind? .caret ts = none := by
  cases ts with
  | nil => rfl
  | cons t ts => exact if_neg h.1

/-- Above all levels of operators only an exponent can follow. -/
theorem stopsChain_of_behind?_caret {ts : List Token} (h : behind? .caret ts = none) :
    StopsChain (10 + 1) ts := by
  cases ts with
  | nil => trivial
  | cons t ts =>
    refine ⟨?_, ?_⟩
    · rintro rfl
      simp at h
    · rintro ⟨p, op⟩ hq
      have := (level_bounds (token_of_binary? hq).1).2
      omega

theorem stopsChain_operator {n : Nat} {op : BinaryOp} (h : op ∈ operatorsAt n) (ts : List Token) :
    StopsChain (n + 1) (.symbol op.symbol :: ts) := by
  have hop : (Token.symbol op.symbol).binary? = some (n, op) := binary?_symbol h
  refine ⟨?_, ?_⟩
  · intro heq
    rw [heq] at hop
    cases hop
  · intro q hq
    rw [hop] at hq
    cases hq
    exact Nat.lt_succ_self n

theorem not_stopsChain_operator {n : Nat} {op : BinaryOp} (h : op ∈ operatorsAt n)
    (ts : List Token) : ¬StopsChain n (.symbol op.symbol :: ts) :=
  fun hs => lt_irrefl n (hs.2 (n, op) (binary?_symbol h))

theorem Tail.stopsChain {n : Nat} (t : Tail n) {ts : List Token} (h : StopsChain (n + 1) ts) :
    StopsChain (n + 1) (t.tokens ++ ts) := by
  cases t with
  | nil => exact h
  | cons op hop next rest => exact stopsChain_operator hop _

theorem stopsChain_question (ts : List Token) : StopsChain 1 (.symbol .question :: ts) :=
  ⟨by decide, by rintro q ⟨⟩⟩

theorem stopsExpression_colon (ts : List Token) : StopsExpression (.symbol .colon :: ts) :=
  ⟨⟨by decide, by rintro q ⟨⟩⟩, rfl⟩

theorem stopsExpression_comma (ts : List Token) : StopsExpression (.symbol .comma :: ts) :=
  ⟨⟨by decide, by rintro q ⟨⟩⟩, rfl⟩

theorem stopsExpression_close (ts : List Token) : StopsExpression (.symbol .closeParen :: ts) :=
  ⟨⟨by decide, by rintro q ⟨⟩⟩, rfl⟩

theorem stopsExpression_nil : StopsExpression [] := ⟨trivial, rfl⟩

/-! ## Looser and longer chains -/

/-- A chain of tighter operators as a chain of looser ones, with no operator of those levels. -/
def Chain.loosen {n : Nat} : (k : Nat) → n + k ≤ 10 → Chain (n + k) → Chain n
  | 0, _, c => c
  | k + 1, h, c => loosen k (by omega) (.level (by omega) c .nil)

theorem Chain.tokens_loosen {n k : Nat} (h : n + k ≤ 10) (c : Chain (n + k)) :
    (c.loosen k h).tokens = c.tokens := by
  induction k with
  | zero => rfl
  | succ k ih => exact (ih (by omega) _).trans (List.append_nil _)

theorem Chain.formula_loosen {n k : Nat} (h : n + k ≤ 10) (c : Chain (n + k)) :
    (c.loosen k h).formula = c.formula := by
  induction k with
  | zero => rfl
  | succ k ih => exact ih (by omega) _

theorem Chain.nesting_loosen {n k : Nat} (h : n + k ≤ 10) (c : Chain (n + k)) :
    (c.loosen k h).nesting = c.nesting := by
  induction k with
  | zero => rfl
  | succ k ih => exact (ih (by omega) _).trans (Nat.max_zero _)

theorem Chain.level_le {n : Nat} (c : Chain n) : n ≤ 10 := by
  cases c with
  | operand u => exact le_rfl
  | level h head tail => exact le_of_lt h

theorem Chain.exists_loosen {m n : Nat} (h : m ≤ n) (c : Chain n) :
    ∃ d : Chain m, d.tokens = c.tokens ∧ d.formula = c.formula ∧ d.nesting = c.nesting := by
  obtain ⟨k, rfl⟩ := Nat.exists_eq_add_of_le h
  exact ⟨c.loosen k c.level_le, c.tokens_loosen _, c.formula_loosen _, c.nesting_loosen _⟩

/-- An operand as an expression. -/
def Expression.ofOperand (u : Operand) : Expression :=
  .chain (Chain.loosen 9 (by decide) (.operand u) : Chain 1)

theorem Expression.tokens_ofOperand (u : Operand) : (ofOperand u).tokens = u.tokens :=
  Chain.tokens_loosen _ _

theorem Expression.formula_ofOperand (u : Operand) : (ofOperand u).formula = u.formula :=
  Chain.formula_loosen _ _

/-- The rest of a chain with one more operand at its end. -/
def Tail.snoc {n : Nat} (op : BinaryOp) (h : op ∈ operatorsAt n) (last : Chain (n + 1)) :
    Tail n → Tail n
  | .nil => .cons op h last .nil
  | .cons op₁ h₁ next rest => .cons op₁ h₁ next (rest.snoc op h last)

section Snoc

variable {n : Nat} (op : BinaryOp) (h : op ∈ operatorsAt n) (last : Chain (n + 1))

theorem Tail.tokens_snoc : (t : Tail n) →
    (t.snoc op h last).tokens = t.tokens ++ .symbol op.symbol :: last.tokens
  | .nil => by simp [Tail.snoc, Tail.tokens]
  | .cons _ _ _ rest => by simp [Tail.snoc, Tail.tokens, rest.tokens_snoc]

theorem Tail.formula_snoc : (t : Tail n) → (left : Formula) →
    (t.snoc op h last).formula left = .binary op (t.formula left) last.formula
  | .nil, _ => rfl
  | .cons _ _ _ rest, _ => rest.formula_snoc _

theorem Tail.nesting_snoc : (t : Tail n) →
    (t.snoc op h last).nesting = max t.nesting last.nesting
  | .nil => by simp [Tail.snoc, Tail.nesting]
  | .cons _ _ _ rest => by simp [Tail.snoc, Tail.nesting, rest.nesting_snoc, max_assoc]

end Snoc

/-- A chain goes on with one more operand behind an operator that does not bind tighter. -/
theorem Chain.exists_snoc {m n : Nat} (h : m ≤ n) (c : Chain n) {op : BinaryOp}
    (hop : op ∈ operatorsAt m) (last : Chain (m + 1)) :
    ∃ d : Chain m, d.tokens = c.tokens ++ .symbol op.symbol :: last.tokens ∧
      d.formula = .binary op c.formula last.formula ∧ d.nesting = max c.nesting last.nesting := by
  obtain ⟨d, ht, hf, hn⟩ := c.exists_loosen h
  rw [← ht, ← hf, ← hn]
  cases d with
  | operand u => exact absurd (level_bounds hop).2 (by decide)
  | level hm head tail =>
    refine ⟨.level hm head (tail.snoc op hop last), ?_, ?_, ?_⟩
    · simp [Chain.tokens, Tail.tokens_snoc]
    · exact tail.formula_snoc op hop last _
    · simp [Chain.nesting, Tail.nesting_snoc, max_assoc]

end RadixCalc.Grammar
