import RadixCalc.Proofs.Formula.Display
import RadixCalc.Proofs.Formula.Traversal

/-!
# The size of formulas and the depth of their evaluation

An evaluation goes down the tree, and the depth at which the reader gives up does not count
conditions, chains of operators and unary operators in front of an operand; so it does not bound the
height of a tree. The number of tokens does: every node of a tree stands for a token of its own, and
no formula has more than `Formula.maxTokens` of them.

* `Grammar.Expression.nodeCount_le` counts the nodes, rule by rule.
* `Formula.nodes` lists them. Of a tree that was read, every number in the list has no sign and is a
  number, and every call has as many arguments as its function takes (`Formula.IsReadable.of_mem`).
* `Formula.evalWithin` evaluates to a bounded depth and with any number for missing arguments, and
  `Formula.evalWithin_eq_eval` says that neither the bound nor that number matters.
* `Formula.bounded_of_ofTokens` puts this together for the tokens of a text.
-/

namespace RadixCalc

/-! ## Counting nodes -/

namespace Grammar

open Formula (nodeCountOfAll)

theorem nodeCount_foldr_unary (ops : List UnaryOp) (x : Formula) :
    (ops.foldr Formula.unary x).nodeCount = ops.length + x.nodeCount := by
  induction ops with
  | nil => exact (Nat.zero_add _).symm
  | cons op ops ih =>
    rw [List.foldr_cons, Formula.nodeCount, ih, List.length_cons]
    omega

mutual

theorem Expression.nodeCount_le : (e : Expression) → e.formula.nodeCount ≤ e.tokens.length
  | .chain c => c.nodeCount_le
  | .cond c yes no => by
    have hc := c.nodeCount_le
    have hyes := yes.nodeCount_le
    have hno := no.nodeCount_le
    simp only [Expression.formula, Formula.nodeCount, Expression.tokens, List.length_append,
      List.length_cons]
    omega

theorem Chain.nodeCount_le : {n : ℕ} → (c : Chain n) → c.formula.nodeCount ≤ c.tokens.length
  | _, .operand u => u.nodeCount_le
  | _, .level _ head tail => by
    have hhead := head.nodeCount_le
    have htail := tail.nodeCount_le head.formula
    simp only [Chain.formula, Chain.tokens, List.length_append]
    omega

/-- The rest of a chain adds no more nodes to what stands before it than it has tokens. -/
theorem Tail.nodeCount_le : {n : ℕ} → (t : Tail n) → (left : Formula) →
    (t.formula left).nodeCount ≤ left.nodeCount + t.tokens.length
  | _, .nil, _ => Nat.le_add_right _ _
  | _, .cons op _ next rest, left => by
    have hnext := next.nodeCount_le
    have hrest := rest.nodeCount_le (.binary op left next.formula)
    simp only [Tail.formula, Formula.nodeCount, Tail.tokens, List.length_append,
      List.length_cons] at hrest ⊢
    omega

theorem Operand.nodeCount_le : (u : Operand) → u.formula.nodeCount ≤ u.tokens.length
  | .mk ops p => by
    have hp := p.nodeCount_le
    simp only [Operand.formula, nodeCount_foldr_unary, Operand.tokens, List.length_append,
      List.length_map]
    omega

theorem Power.nodeCount_le : (p : Power) → p.formula.nodeCount ≤ p.tokens.length
  | .plain a => a.nodeCount_le
  | .raised a exponent => by
    have ha := a.nodeCount_le
    have hexponent := exponent.nodeCount_le
    simp only [Power.formula, Formula.nodeCount, Power.tokens, List.length_append,
      List.length_cons]
    omega

theorem Primary.nodeCount_le : (a : Primary) → a.formula.nodeCount ≤ a.tokens.length
  | .number _ => le_rfl
  | .var _ => le_rfl
  | .group e => by
    have he := e.nodeCount_le
    simp only [Primary.formula, Primary.tokens, List.length_cons, List.length_append]
    omega
  | .constant _ _ => by
    show 1 ≤ 3
    decide
  | .call _ args _ => by
    have hargs := args.nodeCount_le
    simp only [Primary.formula, Formula.nodeCount, Primary.tokens, List.length_cons,
      List.length_append]
    omega

theorem Arguments.nodeCount_le : {n : ℕ} → (args : Arguments n) →
    nodeCountOfAll args.formulas ≤ args.tokens.length
  | _, .last e => by
    have he := e.nodeCount_le
    simpa [Arguments.formulas, nodeCountOfAll, Arguments.tokens] using he
  | _, .more e rest => by
    have he := e.nodeCount_le
    have hrest := rest.nodeCount_le
    simp only [Arguments.formulas, nodeCountOfAll, Arguments.tokens, List.length_append,
      List.length_cons]
    omega

end

end Grammar

namespace Formula

/-! ## Listing nodes -/

mutual

/-- The nodes of a formula, each as the tree below it, from the root down and from left to
right. -/
def nodes : Formula → List Formula
  | number v => [number v]
  | var name => [var name]
  | unary op x => unary op x :: x.nodes
  | binary op a b => binary op a b :: (a.nodes ++ b.nodes)
  | cond c a b => cond c a b :: (c.nodes ++ (a.nodes ++ b.nodes))
  | call f args => call f args :: nodesOfAll args

/-- The nodes of a list of formulas. -/
def nodesOfAll : List Formula → List Formula
  | [] => []
  | x :: xs => x.nodes ++ nodesOfAll xs

end

mutual

theorem length_nodes : (e : Formula) → e.nodes.length = e.nodeCount
  | number _ => rfl
  | var _ => rfl
  | unary _ x => by rw [nodes, List.length_cons, length_nodes x, nodeCount]
  | binary _ a b => by
    rw [nodes, List.length_cons, List.length_append, length_nodes a, length_nodes b, nodeCount]
  | cond c a b => by
    rw [nodes, List.length_cons, List.length_append, List.length_append, length_nodes c,
      length_nodes a, length_nodes b, nodeCount, Nat.add_assoc c.nodeCount a.nodeCount]
  | call _ args => by rw [nodes, List.length_cons, length_nodesOfAll args, nodeCount]

theorem length_nodesOfAll : (es : List Formula) → (nodesOfAll es).length = nodeCountOfAll es
  | [] => rfl
  | x :: xs => by
    rw [nodesOfAll, List.length_append, length_nodes x, length_nodesOfAll xs, nodeCountOfAll]

end

mutual

/-- What is below a readable formula is readable. -/
theorem IsReadable.of_mem : {e : Formula} → e.IsReadable →
    ∀ {x}, x ∈ e.nodes → x.IsReadable
  | number _, h, _, hx => by
    rw [List.mem_singleton.1 hx]
    exact h
  | var _, h, _, hx => by
    rw [List.mem_singleton.1 hx]
    exact h
  | unary _ y, h, _, hx => by
    rcases List.mem_cons.1 hx with rfl | hy
    · exact h
    · exact IsReadable.of_mem (e := y) h hy
  | binary _ a b, h, _, hx => by
    simp only [nodes, List.mem_cons, List.mem_append] at hx
    rcases hx with rfl | ha | hb
    · exact h
    · exact IsReadable.of_mem h.1 ha
    · exact IsReadable.of_mem h.2 hb
  | cond c a b, h, _, hx => by
    simp only [nodes, List.mem_cons, List.mem_append] at hx
    rcases hx with rfl | hc | ha | hb
    · exact h
    · exact IsReadable.of_mem h.1 hc
    · exact IsReadable.of_mem h.2.1 ha
    · exact IsReadable.of_mem h.2.2 hb
  | call _ args, h, _, hx => by
    rcases List.mem_cons.1 hx with rfl | hargs
    · exact h
    · exact AreReadable.of_mem h.2 hargs

theorem AreReadable.of_mem : {es : List Formula} → AreReadable es →
    ∀ {x}, x ∈ nodesOfAll es → x.IsReadable
  | y :: ys, h, _, hx => by
    rcases List.mem_append.1 hx with hy | hys
    · exact IsReadable.of_mem h.1 hy
    · exact AreReadable.of_mem h.2 hys

end

end Formula

/-! ## Missing arguments -/

namespace Builtin

/-- Where a function is given as many arguments as it takes, none is missing. -/
theorem valueWith_eq_value {f : Builtin} {args : List Double}
    (h : f.arity.accepts args.length = true) (missing : Double) :
    f.valueWith missing args = f.value args := by
  match args with
  | [] => cases f <;> first | exact absurd h Bool.false_ne_true | rfl
  | [_] => cases f <;> first | exact absurd h Bool.false_ne_true | rfl
  | _ :: _ :: _ => rfl

end Builtin

namespace Formula

/-! ## Evaluation to a bounded depth -/

/-- What an evaluation could fall back on: a number for a missing argument, and an outcome for a
node that lies too deep. -/
structure Fallback where
  missing : Double
  tooDeep : Except Failure Double

/-- The value of a formula, found by an evaluation that goes down this many nodes at most. -/
def evalWithin (fallback : Fallback) (env : Environment) :
    ℕ → Formula → Except Failure Double
  | 0, _ => fallback.tooDeep
  | _ + 1, number v => .ok v
  | _ + 1, var name =>
    match env name with
    | some v => .ok v
    | none => .error (.unboundVariable name)
  | depth + 1, unary op x =>
    (evalWithin fallback env depth x).bind fun v => .ok (op.apply v)
  | depth + 1, binary op a b =>
    (evalWithin fallback env depth a).bind fun x =>
      (op.decided? x).elim
        ((evalWithin fallback env depth b).bind fun y => .ok (op.apply x y)) .ok
  | depth + 1, cond c a b =>
    (evalWithin fallback env depth c).bind fun x =>
      if x.isTrue then evalWithin fallback env depth a else evalWithin fallback env depth b
  | depth + 1, call f args =>
    (args.mapM (evalWithin fallback env depth)).bind fun vs =>
      .ok (f.valueWith fallback.missing vs)

section Evaluation

variable (env : Environment)

theorem eval_unary (op : UnaryOp) (x : Formula) :
    (unary op x).eval env = (x.eval env).bind fun v => .ok (op.apply v) := by
  rw [eval]
  cases x.eval env with
  | error e => rfl
  | ok v => rfl

/-- The right operand is evaluated where the left one does not decide. -/
theorem eval_binary (op : BinaryOp) (a b : Formula) :
    (binary op a b).eval env = (a.eval env).bind fun x =>
      (op.decided? x).elim ((b.eval env).bind fun y => .ok (op.apply x y)) .ok := by
  rw [eval]
  cases a.eval env with
  | error e => rfl
  | ok x =>
    simp only [Except.bind]
    cases op.decided? x with
    | some v => rfl
    | none =>
      cases b.eval env with
      | error e => rfl
      | ok y => rfl

theorem eval_cond (c a b : Formula) :
    (cond c a b).eval env =
      (c.eval env).bind fun x => if x.isTrue then a.eval env else b.eval env := by
  rw [eval]
  cases c.eval env with
  | error e => rfl
  | ok x => rfl

theorem eval_call (f : Builtin) (args : List Formula) :
    (call f args).eval env = (evalAll env args).bind fun vs => .ok (f.value vs) := by
  rw [eval]
  cases evalAll env args with
  | error e => rfl
  | ok vs => rfl

end Evaluation

variable {env : Environment}

theorem length_of_evalAll {es : List Formula} {vs : List Double} (h : evalAll env es = .ok vs) :
    vs.length = es.length := by
  induction es generalizing vs with
  | nil =>
    cases h
    rfl
  | cons x xs ih =>
    rw [evalAll] at h
    split at h
    · cases h
    · split at h
      · cases h
      · next hvs =>
        cases h
        rw [List.length_cons, List.length_cons, ih hvs]

/-- Formulas are evaluated from left to right, one after the other. -/
theorem mapM_eq_evalAll {eval' : Formula → Except Failure Double} {es : List Formula}
    (h : ∀ e ∈ es, eval' e = e.eval env) : es.mapM eval' = evalAll env es := by
  induction es with
  | nil => rfl
  | cons x xs ih =>
    obtain ⟨hx, hxs⟩ := List.forall_mem_cons.1 h
    rw [List.mapM_cons, evalAll, hx, ih hxs]
    cases x.eval env with
    | error e => rfl
    | ok v =>
      cases evalAll env xs with
      | error e => rfl
      | ok vs => rfl

theorem nodeCount_le_of_mem {e : Formula} {es : List Formula} (h : e ∈ es) :
    e.nodeCount ≤ nodeCountOfAll es := by
  induction h with
  | head xs => exact Nat.le_add_right _ _
  | tail x h ih => exact ih.trans (Nat.le_add_left _ _)

theorem AreReadable.isReadable_of_mem {e : Formula} {es : List Formula} (hes : AreReadable es)
    (h : e ∈ es) : e.IsReadable := by
  induction h with
  | head xs => exact hes.1
  | tail x h ih => exact ih hes.2

/-- An evaluation goes down no more nodes than there are, and a readable formula has no missing
arguments. -/
theorem evalWithin_eq_eval (fallback : Fallback) {depth : ℕ} {e : Formula}
    (hreadable : e.IsReadable) (hdepth : e.nodeCount ≤ depth) :
    evalWithin fallback env depth e = e.eval env := by
  induction depth generalizing e with
  | zero =>
    rw [nodeCount_eq] at hdepth
    omega
  | succ depth ih =>
    cases e with
    | number v => rfl
    | var name => rfl
    | unary op x =>
      rw [nodeCount] at hdepth
      have hx := ih (e := x) hreadable (by omega)
      rw [evalWithin, eval_unary, hx]
    | binary op a b =>
      rw [nodeCount] at hdepth
      have ha := ih hreadable.1 (by omega)
      have hb := ih hreadable.2 (by omega)
      rw [evalWithin, eval_binary, ha, hb]
    | cond c a b =>
      rw [nodeCount] at hdepth
      have hc := ih hreadable.1 (by omega)
      have ha := ih hreadable.2.1 (by omega)
      have hb := ih hreadable.2.2 (by omega)
      rw [evalWithin, eval_cond, hc, ha, hb]
    | call f args =>
      rw [nodeCount] at hdepth
      obtain ⟨haccepts, hargs⟩ := hreadable
      have hall : ∀ x ∈ args, evalWithin fallback env depth x = x.eval env := by
        intro x hx
        have hcount := nodeCount_le_of_mem hx
        exact ih (hargs.isReadable_of_mem hx) (by omega)
      rw [evalWithin, eval_call, mapM_eq_evalAll hall]
      cases hvs : evalAll env args with
      | error e => rfl
      | ok vs =>
        rw [← length_of_evalAll hvs] at haccepts
        exact congrArg Except.ok (Builtin.valueWith_eq_value haccepts fallback.missing)

/-! ## One expression in parentheses -/

/-- Parentheses are read as their first expression where they hold one, and what would stand for a
first expression where they hold none does not matter. -/
theorem found_parsePrimary_first (instead : Formula) (depth : ℕ) (ts : List Token) :
    found (parsePrimary depth (.symbol .openParen :: ts)) =
      (found (parseArguments depth ts)).bind fun (args, rest) =>
        if args.length ≠ 1 then
          fault (.misplaced (.symbol .openParen :: ts.take (ts.length - rest.length)))
        else .ok (args.head?.getD instead, rest) := by
  rw [found_parsePrimary_group]
  congr 1
  funext ⟨args, rest⟩
  match args with
  | [] => rfl
  | [_] => rfl
  | _ :: _ :: _ => rfl

/-! ## Trees of texts -/

theorem not_isNegative_of_isUnsigned {v : Double} (h : v.IsUnsigned) :
    v.isNaN = false ∧ v.isNegative = false := by
  rcases h with rfl | ⟨rank, rfl⟩
  · exact ⟨rfl, by decide⟩
  · refine ⟨rfl, ?_⟩
    show decide ((rank.val : ℤ) < 0) = false
    simp

/-- A tree that is read from the tokens of a text has no more nodes than there are tokens, and so
`maxTokens` of them at most. Each call in it has as many arguments as its function takes, and each
number is a number and not negative. So its evaluation goes down `maxTokens` nodes at most, and no
fallback is used: neither for missing arguments nor for the first expression in parentheses. -/
theorem bounded_of_ofTokens {text : Text} {ts : List Token} {e : Formula}
    (hts : Token.ofText text = .ok ts) (he : ofTokens ts = .ok e) :
    e.nodes.length ≤ ts.length ∧ ts.length ≤ maxTokens ∧
      (∀ f args, call f args ∈ e.nodes → f.arity.accepts args.length = true) ∧
      (∀ v, number v ∈ e.nodes → v.isNaN = false ∧ v.isNegative = false) ∧
      (∀ fallback env, evalWithin fallback env maxTokens e = e.eval env) ∧
      ∀ instead depth rest, found (parsePrimary depth (.symbol .openParen :: rest)) =
        (found (parseArguments depth rest)).bind fun (args, behind) =>
          if args.length ≠ 1 then
            fault (.misplaced (.symbol .openParen :: rest.take (rest.length - behind.length)))
          else .ok (args.head?.getD instead, behind) := by
  have hlength : ts.length ≤ maxTokens := (bounds_of_ofTokens he).2
  have hreadable : e.IsReadable := isReadable_of_ofText (ofText_eq_ok_iff.2 ⟨ts, hts, he⟩)
  have hcount : e.nodeCount ≤ ts.length := by
    obtain ⟨d, rfl, rfl, -⟩ := Grammar.derives_of_ofTokens he
    exact d.nodeCount_le
  refine ⟨?_, hlength, ?_, ?_, ?_, found_parsePrimary_first⟩
  · rwa [length_nodes]
  · intro f args hcall
    exact (hreadable.of_mem hcall).1
  · intro v hnumber
    exact not_isNegative_of_isUnsigned (hreadable.of_mem hnumber)
  · intro fallback env
    exact evalWithin_eq_eval fallback hreadable (hcount.trans hlength)

/-- The formula `log(2)?-{a}:1` has nine tokens and six nodes. -/
theorem bounded_of_ofTokens_cond :
    ∃ ts e, Token.ofText "log(2)?-\x7ba\x7d:1".toList = .ok ts ∧ ofTokens ts = .ok e ∧
      ts.length = 9 ∧ e.nodes.length = 6 ∧
      ∀ fallback env, evalWithin fallback env maxTokens e = e.eval env := by
  let leaf (a : Grammar.Primary) : Grammar.Operand := .mk [] (.plain a)
  let d : Grammar.Expression :=
    .cond (Grammar.Chain.loosen 9 (by decide) (.operand (leaf
        (.call .log (.last (.ofOperand (leaf (.number (.ofNat 2))))) rfl))) : Grammar.Chain 1)
      (.ofOperand (.mk [.neg] (.plain (.var ['a'])))) (.ofOperand (leaf (.number .one)))
  let ts : List Token := [.word "log".toList, .symbol .openParen, .number (.ofNat 2),
    .symbol .closeParen, .symbol .question, .symbol .minus, .placeholder ['a'], .symbol .colon,
    .number .one]
  let e : Formula := .cond (.call .log [.number (.ofNat 2)]) (.unary .neg (.var ['a']))
    (.number .one)
  have htokens : Token.ofText "log(2)?-\x7ba\x7d:1".toList = .ok ts := by decide +kernel
  have hread : ofTokens ts = .ok e :=
    Grammar.ofTokens_eq_ok d (by decide +kernel) rfl (by decide) (by decide)
  obtain ⟨-, -, -, -, heval, -⟩ := bounded_of_ofTokens htokens hread
  exact ⟨ts, e, htokens, hread, rfl, rfl, heval⟩

end Formula

end RadixCalc
