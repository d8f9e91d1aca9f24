import RadixCalc.Proofs.Formula.Grammar

/-!
# Every derivation is read

The readers find each derivation of the grammar, with the tree it builds, unless its operands lie
too deep; then they fail with `FormulaFault.tooDeep` and no other failure. The tokens of a phrase
stand in front of further tokens, in front of which such a phrase ends.

* `within` is the answer of a reader in terms of the nesting of what it reads.
* `Expression.found_tokens` and its companions are the induction, one theorem for each type of
  derivation.
* `ofTokens_tokens` is the reading of a whole derivation.

A chain is the one phrase whose reader does not follow its rule. `parseChain` reads one operand and
then goes on with operators of its level and of all levels above, so `Chain.found_tokens` says that
behind the tokens of a chain of level `n` the reader of any level up to `n` is where it would be had
it read the chain as a single operand.
-/

namespace RadixCalc.Grammar

open Formula

/-! ## Answers that depend on the nesting -/

/-- The answer of a reader at a depth that finds `x`, unless an operand lies too deep. -/
def within {α : Type} (depth nesting : Nat) (x : α) : Except Failure α :=
  if depth + nesting < maxDepth then .ok x else fault .tooDeep

theorem bind_ok {α : Type} (x : Except Failure α) : x.bind .ok = x := by
  cases x <;> rfl

/-- Of two phrases read one after the other, the deeper one decides whether the reader goes on. -/
theorem within_bind_bind {α β γ : Type} {depth m n : Nat} {x : α} {y : β}
    {f : α → Except Failure γ} {g : β → Except Failure γ}
    (h : depth + m < maxDepth → f x = (within depth n y).bind g) :
    (within depth m x).bind f = (within depth (max m n) y).bind g := by
  unfold within at *
  by_cases hm : depth + m < maxDepth
  · rw [if_pos hm]
    exact (h hm).trans (congrArg (Except.bind · g) (if_congr (by omega) rfl rfl))
  · rw [if_neg hm, if_neg (by omega)]
    rfl

theorem within_bind {α β : Type} {depth m n : Nat} {x : α} {y : β} {f : α → Except Failure β}
    (h : depth + m < maxDepth → f x = within depth n y) :
    (within depth m x).bind f = within depth (max m n) y := by
  have hbind := within_bind_bind fun hm => (h hm).trans (bind_ok _).symm
  rwa [bind_ok] at hbind

/-- What takes no operand adds nothing to the nesting. -/
theorem within_bind_ok {α β : Type} {depth m : Nat} {x : α} {y : β} {f : α → Except Failure β}
    (h : f x = .ok y) : (within depth m x).bind f = within depth m y := by
  unfold within
  split
  · exact h
  · rfl

/-- One level deeper in the reader is one level deeper in what it reads. -/
theorem within_succ {α : Type} (depth nesting : Nat) (x : α) :
    within (depth + 1) nesting x = within depth (nesting + 1) x := by
  rw [within, within, Nat.add_right_comm, Nat.add_assoc]

theorem within_of_le {α : Type} {depth : Nat} (h : maxDepth ≤ depth) (n : Nat) (x : α) :
    within depth n x = fault .tooDeep :=
  if_neg (by omega)

/-! ## Phrases -/

/-- A reader of chains stops in front of what is no operator of its level or of a tighter one. -/
theorem found_parseChainFrom_of_stops {level depth : Nat} {left : Formula} {ts : List Token}
    (h : StopsChain level ts) : found (parseChainFrom level depth left ts) = .ok (left, ts) := by
  cases ts with
  | nil => exact found_parseChainFrom_nil ..
  | cons t ts =>
    rw [found_parseChainFrom_cons]
    cases hq : t.binary? with
    | none => rfl
    | some q => exact if_pos (h.2 q hq)

theorem found_chain_of_stops {n depth : Nat} {c : Chain n} {rest : List Token}
    (h : found (parseChain n depth (c.tokens ++ rest)) =
      (within depth c.nesting c.formula).bind fun left => found (parseChainFrom n depth left rest))
    (hrest : StopsChain n rest) :
    found (parseChain n depth (c.tokens ++ rest)) = within depth c.nesting (c.formula, rest) := by
  rw [h]
  exact within_bind_ok (found_parseChainFrom_of_stops hrest)

theorem found_item {depth : Nat} {e : Expression} {rest : List Token}
    (h : found (parseExpression depth (e.tokens ++ .symbol .closeParen :: rest)) =
      within depth e.nesting (e.formula, .symbol .closeParen :: rest)) :
    found (parseItems depth (e.tokens ++ .symbol .closeParen :: rest)) =
      within depth e.nesting ([e.formula], rest) := by
  rw [found_parseItems, h]
  exact within_bind_ok rfl

/-- Operators in front of a power are taken one by one, at the depth of the power itself. -/
theorem found_prefixed {depth outer n : Nat} (ops : List UnaryOp) {p : Power} {rest : List Token}
    (h : found (parsePower depth (p.tokens ++ rest)) = within outer n (p.formula, rest)) :
    found (parsePrefixed depth ((Operand.mk ops p).tokens ++ rest)) =
      within outer n ((Operand.mk ops p).formula, rest) := by
  induction ops with
  | nil =>
    obtain ⟨t, ts, hp, -, ht⟩ := p.tokens_eq_cons
    change found (parsePrefixed depth (p.tokens ++ rest)) = within outer n (p.formula, rest)
    rw [← h, hp, List.cons_append, found_parsePrefixed_cons, ht]
  | cons op ops ih =>
    rw [Operand.tokens_cons, List.cons_append, found_parsePrefixed_cons, unary?_symbol]
    simp only [ih]
    exact within_bind_ok rfl

mutual

/-- An expression is read in front of what it can end before: neither `?` nor a binary operator. -/
theorem Expression.found_tokens (depth : Nat) (rest : List Token) : (e : Expression) →
    StopsExpression rest →
    found (parseExpression depth (e.tokens ++ rest)) = within depth e.nesting (e.formula, rest)
  | .chain c, hrest => by
    rw [found_parseExpression, Expression.tokens, found_chain_of_stops
      (c.found_tokens 1 depth rest le_rfl (hrest.1.mono (by omega))) hrest.1]
    exact within_bind_ok (by simp [hrest.2, Expression.formula])
  | .cond c yes no, hrest => by
    rw [found_parseExpression, Expression.tokens, List.append_assoc, List.cons_append,
      found_chain_of_stops
        (c.found_tokens 1 depth _ le_rfl ((stopsChain_question _).mono (by omega)))
        (stopsChain_question _)]
    refine within_bind fun _ => ?_
    simp only [behind?_self, List.append_assoc, List.cons_append]
    rw [yes.found_tokens depth _ (stopsExpression_colon _)]
    refine within_bind fun _ => ?_
    simp only [behind?_self]
    rw [no.found_tokens depth rest hrest]
    exact within_bind_ok rfl

-- The reader's own level stays fixed while the chain goes down to tighter levels.
theorem Chain.found_tokens (level depth : Nat) (rest : List Token) : {n : Nat} → (c : Chain n) →
    level ≤ n → StopsChain (n + 1) rest →
    found (parseChain level depth (c.tokens ++ rest)) =
      (within depth c.nesting c.formula).bind fun left =>
        found (parseChainFrom level depth left rest)
  | _, .operand u, _, hrest => by
    rw [found_parseChain, Chain.tokens, u.found_tokens depth rest hrest.behind?_caret]
    unfold Chain.nesting within
    split <;> rfl
  | n, .level h head tail, hlevel, hrest => by
    rw [Chain.tokens, List.append_assoc, head.found_tokens level depth _ (by omega)
      ((tail.stopsChain hrest).mono (by omega))]
    exact within_bind_bind fun hd =>
      tail.found_tokens level depth rest (by omega) head.formula hlevel hrest

/-- The operators and operands behind the tree `left` are taken up into it, from left to right. -/
theorem Tail.found_tokens (level depth : Nat) (rest : List Token) (hd : depth < maxDepth) :
    {n : Nat} → (t : Tail n) → (left : Formula) → level ≤ n → StopsChain (n + 1) rest →
    found (parseChainFrom level depth left (t.tokens ++ rest)) =
      (within depth t.nesting (t.formula left)).bind fun left =>
        found (parseChainFrom level depth left rest)
  | _, .nil, left, _, _ => by
    rw [Tail.nesting, within, if_pos (by omega)]
    rfl
  | n, .cons op hop next more, left, hlevel, hrest => by
    have hop' : (Token.symbol op.symbol).binary? = some (n, op) := binary?_symbol hop
    rw [Tail.tokens, List.cons_append, List.append_assoc, found_parseChainFrom_cons, hop']
    simp only [if_neg (Nat.not_lt.2 hlevel)]
    have hmore := more.stopsChain hrest
    rw [found_chain_of_stops
      (next.found_tokens (n + 1) depth _ le_rfl (hmore.mono (by omega))) hmore]
    exact within_bind_bind fun _ => more.found_tokens level depth rest hd _ hlevel hrest

/-- An operand is what counts a level, so it is here that a reader at the last depth gives up. -/
theorem Operand.found_tokens (depth : Nat) (rest : List Token) : (u : Operand) →
    behind? .caret rest = none →
    found (parseOperand depth (u.tokens ++ rest)) = within depth u.nesting (u.formula, rest)
  | .mk ops p, hrest => by
    rw [found_parseOperand]
    split
    · next h => exact (within_of_le h _ _).symm
    · next h => exact found_prefixed ops (p.found_tokens depth rest (by omega) hrest)

theorem Power.found_tokens (depth : Nat) (rest : List Token) (hd : depth < maxDepth) :
    (p : Power) → behind? .caret rest = none →
    found (parsePower (depth + 1) (p.tokens ++ rest)) = within depth p.nesting (p.formula, rest)
  | .plain a, hrest => by
    rw [found_parsePower, Power.tokens, a.found_tokens depth rest hd]
    exact within_bind_ok (by simp [hrest, Power.formula])
  | .raised a exponent, hrest => by
    rw [found_parsePower, Power.tokens, List.append_assoc, List.cons_append,
      a.found_tokens depth _ hd]
    refine within_bind fun _ => ?_
    simp only [behind?_self]
    rw [exponent.found_tokens (depth + 1) rest hrest, within_succ]
    exact within_bind_ok rfl

/-- A primary needs no condition on what follows it: its last token says that it ends. -/
theorem Primary.found_tokens (depth : Nat) (rest : List Token) (hd : depth < maxDepth) :
    (a : Primary) →
    found (parsePrimary (depth + 1) (a.tokens ++ rest)) = within depth a.nesting (a.formula, rest)
  | .number v => by
    rw [Primary.tokens, List.singleton_append, found_parsePrimary_number, within,
      if_pos (by exact hd)]
    rfl
  | .var name => by
    rw [Primary.tokens, List.singleton_append, found_parsePrimary_placeholder, within,
      if_pos (by exact hd)]
    rfl
  | .group e => by
    have hopens := (e.opens.append (.symbol .closeParen :: rest)).behind?_close
    rw [Primary.tokens, List.cons_append, List.append_assoc, List.singleton_append,
      found_parsePrimary_group, found_parseArguments hopens,
      found_item (e.found_tokens (depth + 1) _ (stopsExpression_close _)),
      within_succ]
    exact within_bind_ok rfl
  | .constant f h => by
    rw [Primary.tokens]
    simp only [List.cons_append, List.nil_append]
    rw [found_parsePrimary_call, found_parseArguments_close, within, if_pos (by exact hd)]
    simp only [Except.bind, ofName?_name, List.length_nil, h, if_true]
    rfl
  | .call f args h => by
    rw [Primary.tokens, List.cons_append, List.cons_append, List.append_assoc,
      List.singleton_append, found_parsePrimary_call,
      found_parseArguments (args.opens.append _).behind?_close, args.found_tokens (depth + 1) rest,
      within_succ]
    refine within_bind_ok ?_
    simp only [ofName?_name, args.length_formulas, h, if_true]
    rfl

/-- Arguments are read up to the bracket that closes them, and that bracket with them. -/
theorem Arguments.found_tokens (depth : Nat) (rest : List Token) : {n : Nat} →
    (args : Arguments n) →
    found (parseItems depth (args.tokens ++ .symbol .closeParen :: rest)) =
      within depth args.nesting (args.formulas, rest)
  | _, .last e => found_item (e.found_tokens depth _ (stopsExpression_close _))
  | _, .more e more => by
    rw [Arguments.tokens, List.append_assoc, List.cons_append, found_parseItems,
      e.found_tokens depth _ (stopsExpression_comma _)]
    refine within_bind fun _ => ?_
    simp only [behind?_self]
    rw [more.found_tokens depth rest]
    exact within_bind_ok rfl

end

/-! ## Whole lists of tokens -/

/-- The tokens of a derivation are read as its tree, unless there are too many of them or an operand
lies too deep. -/
theorem ofTokens_tokens (d : Expression) (hlen : d.tokens.length ≤ maxTokens) :
    ofTokens d.tokens = within 0 d.nesting d.formula := by
  obtain ⟨t, ts, hts, -⟩ := d.opens
  have hne : d.tokens ≠ [] := by simp [hts]
  have hfound := d.found_tokens 0 [] stopsExpression_nil
  rw [List.append_nil] at hfound
  rw [ofTokens_eq hne hlen, hfound]
  exact within_bind_ok rfl

/-- Tokens with a derivation that is not nested too deep are read as its tree. -/
theorem ofTokens_eq_ok (d : Expression) {ts : List Token} {e : Formula} (hts : d.tokens = ts)
    (he : d.formula = e) (hlen : ts.length ≤ maxTokens) (hd : d.nesting < maxDepth) :
    ofTokens ts = .ok e := by
  subst hts he
  rw [ofTokens_tokens d hlen, within, if_pos (by omega)]

end RadixCalc.Grammar
