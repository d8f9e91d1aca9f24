import RadixCalc.Formula.Eval
import RadixCalc.Proofs.Formula.Grammar

/-!
# The variables of a formula

* `Token.name?` is the name that a placeholder stands for, and `Formula.names_formula` says that the
  names in the tree of a derivation are those of its placeholders, in their order.
* `Formula.exists_eval` is the totality of evaluation: a formula has a value as soon as each of its
  variables has one.
-/

namespace RadixCalc

/-- The name of the variable that a token stands for. -/
def Token.name? : Token → Option Text
  | .placeholder name => some name
  | _ => none

/-- The names of the variables among the tokens, from left to right, as often as they occur. -/
def namesOfTokens (ts : List Token) : List Text :=
  ts.filterMap Token.name?

/-- A name is listed exactly when its placeholder is among the tokens. -/
theorem mem_namesOfTokens {name : Text} {ts : List Token} :
    name ∈ namesOfTokens ts ↔ .placeholder name ∈ ts := by
  unfold namesOfTokens
  rw [List.mem_filterMap]
  constructor
  · rintro ⟨t, ht, hname⟩
    cases t with
    | placeholder n =>
      cases hname
      exact ht
    | number | word | symbol => cases hname
  · intro h
    exact ⟨_, h, rfl⟩

theorem namesOfTokens_append (ts us : List Token) :
    namesOfTokens (ts ++ us) = namesOfTokens ts ++ namesOfTokens us :=
  List.filterMap_append

theorem namesOfTokens_symbol (s : Symbol) (ts : List Token) :
    namesOfTokens (.symbol s :: ts) = namesOfTokens ts := rfl

theorem namesOfTokens_word (name : Text) (ts : List Token) :
    namesOfTokens (.word name :: ts) = namesOfTokens ts := rfl

theorem namesOfTokens_nil : namesOfTokens [] = [] := rfl

/-- Only placeholders count, so a run of operators has no names. -/
theorem namesOfTokens_operators (ops : List UnaryOp) :
    namesOfTokens (ops.map fun op => .symbol op.symbol) = [] := by
  induction ops with
  | nil => rfl
  | cons op ops ih => exact ih

namespace Formula

/-- Operators in front of an operand bring in no variable. -/
theorem names_foldr_unary (ops : List UnaryOp) (x : Formula) :
    (ops.foldr .unary x).names = x.names := by
  induction ops with
  | nil => rfl
  | cons op ops ih => exact ih

end Formula

/-! ## The names in a derivation -/

namespace Grammar

mutual

/-- The variables of the tree are the placeholders among the tokens. -/
theorem Expression.names_formula : (e : Expression) → e.formula.names = namesOfTokens e.tokens
  | .chain c => c.names_formula
  | .cond c yes no => by
    rw [Expression.formula, Formula.names, c.names_formula, yes.names_formula, no.names_formula,
      Expression.tokens, namesOfTokens_append, namesOfTokens_symbol, namesOfTokens_append,
      namesOfTokens_symbol, List.append_assoc]

theorem Chain.names_formula : {n : Nat} → (c : Chain n) → c.formula.names = namesOfTokens c.tokens
  | _, .operand u => u.names_formula
  | _, .level _ head tail => by
    rw [Chain.formula, tail.names_formula, head.names_formula, Chain.tokens, namesOfTokens_append]

/-- A tail puts its operands behind the tree on its left, in the tree as among the tokens. -/
theorem Tail.names_formula : {n : Nat} → (t : Tail n) → (left : Formula) →
    (t.formula left).names = left.names ++ namesOfTokens t.tokens
  | _, .nil, left => (List.append_nil left.names).symm
  | _, .cons _ _ next rest, left => by
    rw [Tail.formula, rest.names_formula, Formula.names, next.names_formula, Tail.tokens,
      namesOfTokens_symbol, namesOfTokens_append, List.append_assoc]

theorem Operand.names_formula : (u : Operand) → u.formula.names = namesOfTokens u.tokens
  | .mk ops p => by
    rw [Operand.formula, Formula.names_foldr_unary, p.names_formula, Operand.tokens,
      namesOfTokens_append, namesOfTokens_operators, List.nil_append]

theorem Power.names_formula : (p : Power) → p.formula.names = namesOfTokens p.tokens
  | .plain a => a.names_formula
  | .raised a exponent => by
    rw [Power.formula, Formula.names, a.names_formula, exponent.names_formula, Power.tokens,
      namesOfTokens_append, namesOfTokens_symbol]

theorem Primary.names_formula : (a : Primary) → a.formula.names = namesOfTokens a.tokens
  | .number v => rfl
  | .var name => rfl
  | .group e => by
    rw [Primary.formula, e.names_formula, Primary.tokens, namesOfTokens_symbol,
      namesOfTokens_append, namesOfTokens_symbol, namesOfTokens_nil, List.append_nil]
  | .constant f h => rfl
  | .call f args h => by
    rw [Primary.formula, Formula.names, args.names_formulas, Primary.tokens, namesOfTokens_word,
      namesOfTokens_symbol, namesOfTokens_append, namesOfTokens_symbol, namesOfTokens_nil,
      List.append_nil]

theorem Arguments.names_formulas : {n : Nat} → (args : Arguments n) →
    Formula.namesOfAll args.formulas = namesOfTokens args.tokens
  | _, .last e => by
    rw [Arguments.formulas, Formula.namesOfAll, e.names_formula]
    exact List.append_nil _
  | _, .more e rest => by
    rw [Arguments.formulas, Formula.namesOfAll, e.names_formula, rest.names_formulas,
      Arguments.tokens, namesOfTokens_append, namesOfTokens_symbol]

end

end Grammar

/-! ## Evaluation where every variable has a value -/

namespace Formula

variable {env : Environment}

mutual

/-- A formula has a value where all its variables have one. -/
theorem exists_eval : (e : Formula) → (∀ name ∈ e.names, ∃ v, env name = some v) →
    ∃ v, e.eval env = .ok v
  | number v, _ => ⟨v, rfl⟩
  | var name, h => by
    obtain ⟨v, hv⟩ := h name (List.mem_singleton_self name)
    exact ⟨v, by rw [eval, hv]⟩
  | unary op x, h => by
    obtain ⟨v, hv⟩ := exists_eval x h
    exact ⟨op.apply v, by rw [eval, hv]⟩
  | binary op a b, h => by
    simp only [names, List.mem_append] at h
    obtain ⟨x, hx⟩ := exists_eval a fun n hn => h n (.inl hn)
    obtain ⟨y, hy⟩ := exists_eval b fun n hn => h n (.inr hn)
    simp only [eval, hx, hy]
    cases op.decided? x with
    | none => exact ⟨_, rfl⟩
    | some v => exact ⟨_, rfl⟩
  | cond c a b, h => by
    simp only [names, List.mem_append] at h
    obtain ⟨x, hx⟩ := exists_eval c fun n hn => h n (.inl (.inl hn))
    obtain ⟨y, hy⟩ := exists_eval a fun n hn => h n (.inl (.inr hn))
    obtain ⟨z, hz⟩ := exists_eval b fun n hn => h n (.inr hn)
    simp only [eval, hx, hy, hz]
    split
    · exact ⟨_, rfl⟩
    · exact ⟨_, rfl⟩
  | call f args, h => by
    obtain ⟨vs, hvs⟩ := exists_evalAll args h
    exact ⟨f.value vs, by rw [eval, hvs]⟩

/-- Arguments have values where all the variables of all of them have one. -/
theorem exists_evalAll : (es : List Formula) → (∀ name ∈ namesOfAll es, ∃ v, env name = some v) →
    ∃ vs, evalAll env es = .ok vs
  | [], _ => ⟨[], rfl⟩
  | x :: xs, h => by
    simp only [namesOfAll, List.mem_append] at h
    obtain ⟨v, hv⟩ := exists_eval x fun n hn => h n (.inl hn)
    obtain ⟨vs, hvs⟩ := exists_evalAll xs fun n hn => h n (.inr hn)
    exact ⟨v :: vs, by rw [evalAll, hv, hvs]⟩

end

end Formula

end RadixCalc
