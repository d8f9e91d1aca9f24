import RadixCalc.Proofs.Formula.Parsing
import RadixCalc.Proofs.Formula.Variables

/-!
# Writing values into formulas

A formula can be valued in two ways: read it and look the variables up, or write the values of the
variables into its tokens, each in parentheses of its own, and read that. The two agree
(`eval_ofTokens_inline`).

The value is written as its magnitude behind a minus where its sign is negative, so it is a primary
wherever the placeholder was one: `inline` is defined on tokens, on derivations and on trees, it
commutes with what a derivation derives (`Expression.tokens_inline`) and with what it builds
(`Expression.formula_inline`), and on trees it changes no value (`Formula.eval_inline`).
-/

namespace RadixCalc

/-! ## Numbers with a sign -/

namespace Double

/-- Tells whether a number is written with a minus; a zero can be. -/
def isSigned : Double → Bool
  | nan => false
  | infinity negative => negative
  | finite negative _ => negative

theorem neg_abs {v : Double} (h : v.isSigned = true) : -v.abs = v := by
  cases v with
  | nan => cases h
  | infinity negative =>
    obtain rfl : negative = true := h
    rfl
  | finite negative rank =>
    obtain rfl : negative = true := h
    rfl

theorem abs_of_not_isSigned {v : Double} (h : ¬v.isSigned = true) : v.abs = v := by
  cases v with
  | nan => rfl
  | infinity negative =>
    obtain rfl : negative = false := Bool.eq_false_iff.2 h
    rfl
  | finite negative rank =>
    obtain rfl : negative = false := Bool.eq_false_iff.2 h
    rfl

/-- A number as tokens: its magnitude in parentheses, behind a minus if it has a negative sign. -/
def enclosed (v : Double) : List Token :=
  if v.isSigned then
    [.symbol .openParen, .symbol .minus, .number v.abs, .symbol .closeParen]
  else [.symbol .openParen, .number v.abs, .symbol .closeParen]

end Double

/-! ## Trees -/

namespace Formula

/-- A number as a tree. -/
def literal (v : Double) : Formula :=
  if v.isSigned then .unary .neg (.number v.abs) else .number v.abs

theorem eval_literal (env : Environment) (v : Double) : (literal v).eval env = .ok v := by
  unfold literal
  split
  · next h =>
    rw [eval, eval]
    exact congrArg Except.ok (Double.neg_abs h)
  · next h => rw [eval, Double.abs_of_not_isSigned h]

theorem names_literal (v : Double) : (literal v).names = [] := by
  unfold literal
  split <;> rfl

mutual

/-- The tree with the values in place of the variables. -/
def inline (env : Environment) : Formula → Formula
  | number v => number v
  | var name =>
    match env name with
    | some v => literal v
    | none => var name
  | unary op x => unary op (x.inline env)
  | binary op a b => binary op (a.inline env) (b.inline env)
  | cond c a b => cond (c.inline env) (a.inline env) (b.inline env)
  | call f args => call f (inlineAll env args)

/-- The trees with the values in place of the variables. -/
def inlineAll (env : Environment) : List Formula → List Formula
  | [] => []
  | x :: xs => x.inline env :: inlineAll env xs

end

section Values

variable {env : Environment}

mutual

/-- A tree has no variables left where all of them have values. -/
theorem names_inline : (e : Formula) → (∀ name ∈ e.names, ∃ v, env name = some v) →
    (e.inline env).names = []
  | number v, _ => rfl
  | var name, h => by
    obtain ⟨v, hv⟩ := h name (List.mem_singleton_self name)
    simp only [inline, hv]
    exact names_literal v
  | unary op x, h => names_inline x h
  | binary op a b, h => by
    simp only [names, List.mem_append] at h
    rw [inline, names, names_inline a fun n hn => h n (.inl hn),
      names_inline b fun n hn => h n (.inr hn), List.append_nil]
  | cond c a b, h => by
    simp only [names, List.mem_append] at h
    rw [inline, names, names_inline c fun n hn => h n (.inl (.inl hn)),
      names_inline a fun n hn => h n (.inl (.inr hn)),
      names_inline b fun n hn => h n (.inr hn), List.append_nil, List.append_nil]
  | call f args, h => namesOfAll_inlineAll args h

theorem namesOfAll_inlineAll : (es : List Formula) →
    (∀ name ∈ namesOfAll es, ∃ v, env name = some v) → namesOfAll (inlineAll env es) = []
  | [], _ => rfl
  | x :: xs, h => by
    simp only [namesOfAll, List.mem_append] at h
    rw [inlineAll, namesOfAll, names_inline x fun n hn => h n (.inl hn),
      namesOfAll_inlineAll xs fun n hn => h n (.inr hn), List.append_nil]

end

mutual

/-- Where all variables have values, writing the values into the tree does not change its value. -/
theorem eval_inline (env' : Environment) : (e : Formula) →
    (∀ name ∈ e.names, ∃ v, env name = some v) → (e.inline env).eval env' = e.eval env
  | number v, _ => rfl
  | var name, h => by
    obtain ⟨v, hv⟩ := h name (List.mem_singleton_self name)
    simp only [inline, eval, hv]
    exact eval_literal env' v
  | unary op x, h => by rw [inline, eval, eval, eval_inline env' x h]
  | binary op a b, h => by
    simp only [names, List.mem_append] at h
    rw [inline, eval, eval, eval_inline env' a fun n hn => h n (.inl hn),
      eval_inline env' b fun n hn => h n (.inr hn)]
  | cond c a b, h => by
    simp only [names, List.mem_append] at h
    rw [inline, eval, eval, eval_inline env' c fun n hn => h n (.inl (.inl hn)),
      eval_inline env' a fun n hn => h n (.inl (.inr hn)),
      eval_inline env' b fun n hn => h n (.inr hn)]
  | call f args, h => by rw [inline, eval, eval, evalAll_inlineAll env' args h]

theorem evalAll_inlineAll (env' : Environment) : (es : List Formula) →
    (∀ name ∈ namesOfAll es, ∃ v, env name = some v) →
    evalAll env' (inlineAll env es) = evalAll env es
  | [], _ => rfl
  | x :: xs, h => by
    simp only [namesOfAll, List.mem_append] at h
    rw [inlineAll, evalAll, evalAll, eval_inline env' x fun n hn => h n (.inl hn),
      evalAll_inlineAll env' xs fun n hn => h n (.inr hn)]

end

end Values

end Formula

/-! ## Tokens -/

namespace Token

variable (env : Environment)

/-- What is written in place of a token: the value of the variable it stands for. -/
def inline : Token → List Token
  | placeholder name =>
    match env name with
    | some v => v.enclosed
    | none => [placeholder name]
  | t => [t]

theorem inline_symbol (s : Symbol) : inline env (.symbol s) = [.symbol s] := rfl

theorem inline_word (name : Text) : inline env (.word name) = [.word name] := rfl

theorem flatMap_inline_operators (ops : List UnaryOp) :
    (ops.map fun op => symbol op.symbol).flatMap (inline env) =
      ops.map fun op => symbol op.symbol := by
  induction ops with
  | nil => rfl
  | cons op ops ih =>
    rw [List.map_cons, List.flatMap_cons, ih, inline_symbol]
    rfl

end Token

/-! ## Derivations -/

namespace Grammar

/-- A number as an operand. -/
def literal (v : Double) : Operand :=
  .mk (if v.isSigned then [.neg] else []) (.plain (.number v.abs))

theorem tokens_literal (v : Double) :
    (Primary.group (.ofOperand (literal v))).tokens = v.enclosed := by
  unfold literal Double.enclosed
  rw [Primary.tokens, Expression.tokens_ofOperand]
  split <;> rfl

theorem formula_literal (v : Double) :
    (Primary.group (.ofOperand (literal v))).formula = Formula.literal v := by
  unfold literal Formula.literal
  rw [Primary.formula, Expression.formula_ofOperand]
  split <;> rfl

mutual

/-- The derivation of an expression with the values written in place of the variables. -/
def Expression.inline (env : Environment) : Expression → Expression
  | .chain c => .chain (c.inline env)
  | .cond c yes no => .cond (c.inline env) (yes.inline env) (no.inline env)

/-- The derivation of a chain with the values written in place of the variables. -/
def Chain.inline (env : Environment) {n : Nat} : Chain n → Chain n
  | .operand u => .operand (u.inline env)
  | .level h head tail => .level h (head.inline env) (tail.inline env)

/-- The derivation of the rest of a chain with the values written in place of the variables. -/
def Tail.inline (env : Environment) {n : Nat} : Tail n → Tail n
  | .nil => .nil
  | .cons op h next rest => .cons op h (next.inline env) (rest.inline env)

/-- The derivation of an operand with the values written in place of the variables. -/
def Operand.inline (env : Environment) : Operand → Operand
  | .mk ops p => .mk ops (p.inline env)

/-- The derivation of a power with the values written in place of the variables. -/
def Power.inline (env : Environment) : Power → Power
  | .plain a => .plain (a.inline env)
  | .raised a exponent => .raised (a.inline env) (exponent.inline env)

/-- The derivation of a primary with the values written in place of the variables. -/
def Primary.inline (env : Environment) : Primary → Primary
  | .number v => .number v
  | .var name =>
    match env name with
    | some v => .group (.ofOperand (literal v))
    | none => .var name
  | .group e => .group (e.inline env)
  | .constant f h => .constant f h
  | .call f args h => .call f (args.inline env) h

/-- The derivation of a list of arguments with the values written in place of the variables. -/
def Arguments.inline (env : Environment) {n : Nat} : Arguments n → Arguments n
  | .last e => .last (e.inline env)
  | .more e rest => .more (e.inline env) (rest.inline env)

end

section Commute

variable (env : Environment)

mutual

/-- The tokens of the derivation with the values are the tokens with the values. -/
theorem Expression.tokens_inline : (e : Expression) →
    (e.inline env).tokens = e.tokens.flatMap (Token.inline env)
  | .chain c => c.tokens_inline
  | .cond c yes no => by
    simp only [Expression.inline, Expression.tokens, c.tokens_inline, yes.tokens_inline,
      no.tokens_inline, List.flatMap_append, List.flatMap_cons, Token.inline_symbol,
      List.singleton_append]

theorem Chain.tokens_inline : {n : Nat} → (c : Chain n) →
    (c.inline env).tokens = c.tokens.flatMap (Token.inline env)
  | _, .operand u => u.tokens_inline
  | _, .level _ head tail => by
    simp only [Chain.inline, Chain.tokens, head.tokens_inline, tail.tokens_inline,
      List.flatMap_append]

theorem Tail.tokens_inline : {n : Nat} → (t : Tail n) →
    (t.inline env).tokens = t.tokens.flatMap (Token.inline env)
  | _, .nil => rfl
  | _, .cons op _ next rest => by
    simp only [Tail.inline, Tail.tokens, next.tokens_inline, rest.tokens_inline,
      List.flatMap_append, List.flatMap_cons, Token.inline_symbol, List.singleton_append]

theorem Operand.tokens_inline : (u : Operand) →
    (u.inline env).tokens = u.tokens.flatMap (Token.inline env)
  | .mk ops p => by
    simp only [Operand.inline, Operand.tokens, p.tokens_inline, List.flatMap_append,
      Token.flatMap_inline_operators]

theorem Power.tokens_inline : (p : Power) →
    (p.inline env).tokens = p.tokens.flatMap (Token.inline env)
  | .plain a => a.tokens_inline
  | .raised a exponent => by
    simp only [Power.inline, Power.tokens, a.tokens_inline, exponent.tokens_inline,
      List.flatMap_append, List.flatMap_cons, Token.inline_symbol, List.singleton_append]

theorem Primary.tokens_inline : (a : Primary) →
    (a.inline env).tokens = a.tokens.flatMap (Token.inline env)
  | .number v => rfl
  | .var name => by
    rw [Primary.inline, Primary.tokens, List.flatMap_singleton, Token.inline]
    cases env name with
    | none => rfl
    | some v => exact tokens_literal v
  | .group e => by
    simp only [Primary.inline, Primary.tokens, e.tokens_inline, List.flatMap_append,
      List.flatMap_cons, List.flatMap_nil, Token.inline_symbol, List.singleton_append]
  | .constant f h => rfl
  | .call f args h => by
    simp only [Primary.inline, Primary.tokens, args.tokens_inline, List.flatMap_append,
      List.flatMap_cons, List.flatMap_nil, Token.inline_symbol, Token.inline_word,
      List.singleton_append]

theorem Arguments.tokens_inline : {n : Nat} → (args : Arguments n) →
    (args.inline env).tokens = args.tokens.flatMap (Token.inline env)
  | _, .last e => e.tokens_inline
  | _, .more e rest => by
    simp only [Arguments.inline, Arguments.tokens, e.tokens_inline, rest.tokens_inline,
      List.flatMap_append, List.flatMap_cons, Token.inline_symbol, List.singleton_append]

end

mutual

/-- The tree of the derivation with the values is the tree with the values. -/
theorem Expression.formula_inline : (e : Expression) →
    (e.inline env).formula = e.formula.inline env
  | .chain c => c.formula_inline
  | .cond c yes no => by
    simp only [Expression.inline, Expression.formula, Formula.inline, c.formula_inline,
      yes.formula_inline, no.formula_inline]

theorem Chain.formula_inline : {n : Nat} → (c : Chain n) →
    (c.inline env).formula = c.formula.inline env
  | _, .operand u => u.formula_inline
  | _, .level _ head tail => by
    simp only [Chain.inline, Chain.formula, head.formula_inline, tail.formula_inline]

theorem Tail.formula_inline : {n : Nat} → (t : Tail n) → (left : Formula) →
    (t.inline env).formula (left.inline env) = (t.formula left).inline env
  | _, .nil, _ => rfl
  | _, .cons op _ next rest, left => by
    rw [Tail.inline, Tail.formula, Tail.formula, next.formula_inline, ← rest.formula_inline]
    rfl

theorem Operand.formula_inline : (u : Operand) →
    (u.inline env).formula = u.formula.inline env
  | .mk ops p => by
    have hp := p.formula_inline
    rw [Operand.inline, Operand.formula, Operand.formula, hp]
    clear hp
    induction ops with
    | nil => rfl
    | cons op ops ih => rw [List.foldr_cons, List.foldr_cons, ih, Formula.inline]

theorem Power.formula_inline : (p : Power) →
    (p.inline env).formula = p.formula.inline env
  | .plain a => a.formula_inline
  | .raised a exponent => by
    simp only [Power.inline, Power.formula, Formula.inline, a.formula_inline,
      exponent.formula_inline]

theorem Primary.formula_inline : (a : Primary) →
    (a.inline env).formula = a.formula.inline env
  | .number v => rfl
  | .var name => by
    rw [Primary.inline, Primary.formula, Formula.inline]
    cases env name with
    | none => rfl
    | some v => exact formula_literal v
  | .group e => e.formula_inline
  | .constant f h => rfl
  | .call f args h => by
    rw [Primary.inline, Primary.formula, Primary.formula, Formula.inline, args.formulas_inline]

theorem Arguments.formulas_inline : {n : Nat} → (args : Arguments n) →
    (args.inline env).formulas = Formula.inlineAll env args.formulas
  | _, .last e => by
    simp only [Arguments.inline, Arguments.formulas, Formula.inlineAll, e.formula_inline]
  | _, .more e rest => by
    simp only [Arguments.inline, Arguments.formulas, Formula.inlineAll, e.formula_inline,
      rest.formulas_inline]

end

end Commute

end Grammar

/-! ## Whole formulas -/

namespace Formula

/-- Valuing a formula after its variables were replaced by their values, each in parentheses, gives
the value it has under those values. Both valuations succeed, and what is read from the replaced
tokens has no variables. The replaced tokens must be few enough and not nested too deep to be
read. -/
theorem eval_ofTokens_inline {ts : List Token} {e : Formula} {env : Environment}
    (h : ofTokens ts = .ok e)
    (henv : ∀ name, .placeholder name ∈ ts → ∃ v, env name = some v)
    (hlen : (ts.flatMap (Token.inline env)).length ≤ maxTokens)
    (hdepth : ∀ d : Grammar.Expression, d.tokens = ts.flatMap (Token.inline env) →
      d.nesting < maxDepth) :
    ∃ e' x, ofTokens (ts.flatMap (Token.inline env)) = .ok e' ∧ e'.variableNames = [] ∧
      e.eval env = .ok x ∧ ∀ env', e'.eval env' = .ok x := by
  obtain ⟨d, rfl, rfl, -⟩ := Grammar.derives_of_ofTokens h
  have hnames : ∀ name ∈ d.formula.names, ∃ v, env name = some v := by
    rw [d.names_formula]
    exact fun name hname => henv name (mem_namesOfTokens.1 hname)
  obtain ⟨x, hx⟩ := exists_eval d.formula hnames
  have hdeep := hdepth (d.inline env) (d.tokens_inline env)
  rw [← d.tokens_inline env] at hlen ⊢
  refine ⟨d.formula.inline env, x, ?_, ?_, hx, ?_⟩
  · rw [Grammar.ofTokens_tokens _ hlen, d.formula_inline env]
    exact if_pos (by omega)
  · rw [variableNames, names_inline d.formula hnames]
    rfl
  · intro env'
    rw [eval_inline env' d.formula hnames, hx]

/-- The value -1 of a variable in front of a power: what is read is the minus of the power of the
value in parentheses. -/
theorem eval_ofTokens_inline_power :
    ofTokens [.symbol .minus, .placeholder ['a'], .symbol .caret, .number .one] =
      .ok (.unary .neg (.binary .pow (.var ['a']) (.number .one))) ∧
    ∃ e' x, ofTokens [.symbol .minus, .symbol .openParen, .symbol .minus, .number .one,
        .symbol .closeParen, .symbol .caret, .number .one] = .ok e' ∧
      e'.variableNames = [] ∧
      eval (fun _ => some (-Double.one)) (.unary .neg (.binary .pow (.var ['a']) (.number .one))) =
        .ok x ∧
      ∀ env', e'.eval env' = .ok x := by
  have h := Grammar.ofTokens_tokens (.ofOperand (.mk [.neg]
    (.raised (.var ['a']) (.mk [] (.plain (.number .one)))))) (by decide)
  have hinlined : ∀ d : Grammar.Expression, d.tokens = [.symbol .minus, .symbol .openParen,
      .symbol .minus, .number .one, .symbol .closeParen, .symbol .caret, .number .one] →
      d = .ofOperand (.mk [.neg] (.raised (.group (.ofOperand (Grammar.literal (-.one))))
        (.mk [] (.plain (.number .one))))) :=
    fun d hd => Grammar.Expression.eq_of_tokens_eq hd
  refine ⟨h, @eval_ofTokens_inline _ _ (fun _ => some (-Double.one)) h (fun _ _ => ⟨_, rfl⟩)
    (by decide) ?_⟩
  intro d hd
  rw [hinlined d hd]
  decide

end Formula

end RadixCalc
