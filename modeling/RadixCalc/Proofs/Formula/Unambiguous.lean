import RadixCalc.Proofs.Formula.Grammar

/-!
# The grammar of formulas is unambiguous

A list of tokens has at most one derivation. The statement that carries the induction speaks of
phrases in front of further tokens: if two phrases of one kind, each followed by tokens in front of
which such a phrase ends, spell the same list, then the phrases are equal and so is what follows
them (`Expression.tokens_inj` and its companions, one for each type of the grammar). Whole lists are
the case where nothing follows (`Expression.eq_of_tokens_eq`).
-/

namespace RadixCalc.Grammar

open Formula (behind?)

/-- The unary operators in front of a power can be read off, because no primary begins with one. -/
theorem Operand.prefixes_inj {ops₁ ops₂ : List UnaryOp} {p₁ p₂ : Power} {r₁ r₂ : List Token}
    (h : (Operand.mk ops₁ p₁).tokens ++ r₁ = (Operand.mk ops₂ p₂).tokens ++ r₂) :
    ops₁ = ops₂ ∧ p₁.tokens ++ r₁ = p₂.tokens ++ r₂ := by
  obtain ⟨t₁, ts₁, hp₁, -, ht₁⟩ := p₁.tokens_eq_cons
  obtain ⟨t₂, ts₂, hp₂, -, ht₂⟩ := p₂.tokens_eq_cons
  induction ops₁ generalizing ops₂ with
  | nil =>
    cases ops₂ with
    | nil => exact ⟨rfl, h⟩
    | cons op₂ ops₂ =>
      change p₁.tokens ++ r₁ = _ at h
      rw [hp₁, Operand.tokens_cons, List.cons_append, List.cons_append, List.cons.injEq] at h
      rw [h.1, unary?_symbol] at ht₁
      cases ht₁
  | cons op₁ ops₁ ih =>
    cases ops₂ with
    | nil =>
      change _ = p₂.tokens ++ r₂ at h
      rw [hp₂, Operand.tokens_cons, List.cons_append, List.cons_append, List.cons.injEq] at h
      rw [← h.1, unary?_symbol] at ht₂
      cases ht₂
    | cons op₂ ops₂ =>
      rw [Operand.tokens_cons, Operand.tokens_cons, List.cons_append, List.cons_append,
        List.cons.injEq] at h
      obtain ⟨rfl, hp⟩ := ih h.2
      rw [eq_of_unary_symbol_eq (Token.symbol.inj h.1)]
      exact ⟨rfl, hp⟩

mutual

/-- A condition is told from a chain by the `?` behind it, and one condition from another by its
three parts in turn. -/
theorem Expression.tokens_inj : (d₁ d₂ : Expression) → {r₁ r₂ : List Token} →
    StopsExpression r₁ → StopsExpression r₂ → d₁.tokens ++ r₁ = d₂.tokens ++ r₂ →
    d₁ = d₂ ∧ r₁ = r₂
  | .chain c₁, .chain c₂, r₁, r₂, h₁, h₂, h => by
    obtain ⟨rfl, hr⟩ := c₁.tokens_inj c₂ h₁.1 h₂.1 h
    exact ⟨rfl, hr⟩
  | .chain c₁, .cond c₂ yes₂ no₂, r₁, r₂, h₁, h₂, h => by
    simp only [Expression.tokens, List.append_assoc, List.cons_append] at h
    obtain ⟨-, rfl⟩ := c₁.tokens_inj c₂ h₁.1 (stopsChain_question _) h
    exact absurd h₁.2 (by simp)
  | .cond c₁ yes₁ no₁, .chain c₂, r₁, r₂, h₁, h₂, h => by
    simp only [Expression.tokens, List.append_assoc, List.cons_append] at h
    obtain ⟨-, rfl⟩ := c₁.tokens_inj c₂ (stopsChain_question _) h₂.1 h
    exact absurd h₂.2 (by simp)
  | .cond c₁ yes₁ no₁, .cond c₂ yes₂ no₂, r₁, r₂, h₁, h₂, h => by
    simp only [Expression.tokens, List.append_assoc, List.cons_append] at h
    obtain ⟨rfl, hyes⟩ := c₁.tokens_inj c₂ (stopsChain_question _) (stopsChain_question _) h
    obtain ⟨rfl, hno⟩ := yes₁.tokens_inj yes₂ (stopsExpression_colon _)
      (stopsExpression_colon _) (List.cons.inj hyes).2
    obtain ⟨rfl, hr⟩ := no₁.tokens_inj no₂ h₁ h₂ (List.cons.inj hno).2
    exact ⟨rfl, hr⟩
  termination_by structural d => d

/-- Two chains of one level begin with the same tighter chain, and then their tails agree. -/
theorem Chain.tokens_inj : {n : Nat} → (c₁ c₂ : Chain n) → {r₁ r₂ : List Token} →
    StopsChain n r₁ → StopsChain n r₂ → c₁.tokens ++ r₁ = c₂.tokens ++ r₂ → c₁ = c₂ ∧ r₁ = r₂
  | _, .operand u₁, .operand u₂, r₁, r₂, h₁, h₂, h => by
    obtain ⟨rfl, hr⟩ := u₁.tokens_inj u₂ h₁.behind?_caret h₂.behind?_caret h
    exact ⟨rfl, hr⟩
  | _, .operand _, .level h _ _, _, _, _, _, _ => absurd h (lt_irrefl _)
  | _, .level h _ _, .operand _, _, _, _, _, _ => absurd h (lt_irrefl _)
  | n, .level _ head₁ tail₁, .level _ head₂ tail₂, r₁, r₂, h₁, h₂, h => by
    rw [Chain.tokens, Chain.tokens, List.append_assoc, List.append_assoc] at h
    obtain ⟨rfl, htail⟩ := head₁.tokens_inj head₂ (tail₁.stopsChain (h₁.mono (by omega)))
      (tail₂.stopsChain (h₂.mono (by omega))) h
    obtain ⟨rfl, hr⟩ := tail₁.tokens_inj tail₂ h₁ h₂ htail
    exact ⟨rfl, hr⟩
  termination_by structural _ c => c

theorem Tail.tokens_inj : {n : Nat} → (t₁ t₂ : Tail n) → {r₁ r₂ : List Token} →
    StopsChain n r₁ → StopsChain n r₂ → t₁.tokens ++ r₁ = t₂.tokens ++ r₂ → t₁ = t₂ ∧ r₁ = r₂
  | _, .nil, .nil, _, _, _, _, h => ⟨rfl, h⟩
  | _, .nil, .cons op₂ hop₂ _ _, _, _, h₁, _, h => by
    rw [Tail.tokens, List.nil_append] at h
    exact absurd (h ▸ h₁) (not_stopsChain_operator hop₂ _)
  | _, .cons op₁ hop₁ _ _, .nil, _, _, _, h₂, h => by
    rw [Tail.tokens, Tail.tokens, List.nil_append] at h
    exact absurd (h ▸ h₂) (not_stopsChain_operator hop₁ _)
  | n, .cons op₁ hop₁ next₁ more₁, .cons op₂ hop₂ next₂ more₂, r₁, r₂, h₁, h₂, h => by
    simp only [Tail.tokens, List.cons_append, List.append_assoc, List.cons.injEq,
      Token.symbol.injEq] at h
    obtain rfl := eq_of_symbol_eq hop₁ hop₂ h.1
    obtain ⟨rfl, hmore⟩ := next₁.tokens_inj next₂ (more₁.stopsChain (h₁.mono (by omega)))
      (more₂.stopsChain (h₂.mono (by omega))) h.2
    obtain ⟨rfl, hr⟩ := more₁.tokens_inj more₂ h₁ h₂ hmore
    exact ⟨rfl, hr⟩
  termination_by structural _ t => t

theorem Operand.tokens_inj : (u₁ u₂ : Operand) → {r₁ r₂ : List Token} →
    behind? .caret r₁ = none → behind? .caret r₂ = none →
    u₁.tokens ++ r₁ = u₂.tokens ++ r₂ → u₁ = u₂ ∧ r₁ = r₂
  | .mk ops₁ p₁, .mk ops₂ p₂, r₁, r₂, h₁, h₂, h => by
    obtain ⟨rfl, hp⟩ := Operand.prefixes_inj h
    obtain ⟨rfl, hr⟩ := p₁.tokens_inj p₂ h₁ h₂ hp
    exact ⟨rfl, hr⟩
  termination_by structural u => u

theorem Power.tokens_inj : (p₁ p₂ : Power) → {r₁ r₂ : List Token} →
    behind? .caret r₁ = none → behind? .caret r₂ = none →
    p₁.tokens ++ r₁ = p₂.tokens ++ r₂ → p₁ = p₂ ∧ r₁ = r₂
  | .plain a₁, .plain a₂, r₁, r₂, h₁, h₂, h => by
    obtain ⟨rfl, hr⟩ := a₁.tokens_inj a₂ h
    exact ⟨rfl, hr⟩
  | .plain a₁, .raised a₂ u₂, r₁, r₂, h₁, h₂, h => by
    simp only [Power.tokens, List.append_assoc, List.cons_append] at h
    obtain ⟨-, rfl⟩ := a₁.tokens_inj a₂ h
    simp at h₁
  | .raised a₁ u₁, .plain a₂, r₁, r₂, h₁, h₂, h => by
    simp only [Power.tokens, List.append_assoc, List.cons_append] at h
    obtain ⟨-, rfl⟩ := a₁.tokens_inj a₂ h
    simp at h₂
  | .raised a₁ u₁, .raised a₂ u₂, r₁, r₂, h₁, h₂, h => by
    simp only [Power.tokens, List.append_assoc, List.cons_append] at h
    obtain ⟨rfl, hu⟩ := a₁.tokens_inj a₂ h
    obtain ⟨rfl, hr⟩ := u₁.tokens_inj u₂ h₁ h₂ (List.cons.inj hu).2
    exact ⟨rfl, hr⟩
  termination_by structural p => p

/-- The first token tells the kinds of primaries apart, but for a call without arguments, which its
second bracket tells from the other calls. -/
theorem Primary.tokens_inj : (a₁ a₂ : Primary) → {r₁ r₂ : List Token} →
    a₁.tokens ++ r₁ = a₂.tokens ++ r₂ → a₁ = a₂ ∧ r₁ = r₂
  | .number v₁, a₂, r₁, r₂, h => by
    cases a₂ <;> simp_all [Primary.tokens]
  | .var name₁, a₂, r₁, r₂, h => by
    cases a₂ <;> simp_all [Primary.tokens]
  | .group e₁, a₂, r₁, r₂, h => by
    cases a₂ with
    | group e₂ =>
      simp only [Primary.tokens, List.cons_append, List.append_assoc, List.cons.injEq,
        true_and] at h
      obtain ⟨rfl, hr⟩ := e₁.tokens_inj e₂ (stopsExpression_close _)
        (stopsExpression_close _) h
      exact ⟨rfl, (List.cons.inj hr).2⟩
    | _ => simp [Primary.tokens] at h
  | .constant f₁ hf₁, a₂, r₁, r₂, h => by
    cases a₂ with
    | constant f₂ hf₂ =>
      simp [Primary.tokens] at h
      obtain rfl := eq_of_name_eq h.1
      exact ⟨rfl, h.2⟩
    | call f₂ as₂ hf₂ =>
      obtain ⟨t, ts, has, ht⟩ := as₂.opens
      simp [Primary.tokens, has, ht.symm] at h
    | _ => simp [Primary.tokens] at h
  | .call f₁ as₁ hf₁, a₂, r₁, r₂, h => by
    cases a₂ with
    | constant f₂ hf₂ =>
      obtain ⟨t, ts, has, ht⟩ := as₁.opens
      simp [Primary.tokens, has, ht] at h
    | call f₂ as₂ hf₂ =>
      simp only [Primary.tokens, List.cons_append, List.append_assoc, List.cons.injEq,
        true_and, Token.word.injEq] at h
      obtain rfl := eq_of_name_eq h.1
      obtain ⟨has, hr⟩ := as₁.tokens_inj as₂ h.2
      cases has
      exact ⟨rfl, hr⟩
    | _ => simp [Primary.tokens] at h
  termination_by structural a => a

theorem Arguments.tokens_inj : {m n : Nat} → (as₁ : Arguments m) → (as₂ : Arguments n) →
    {r₁ r₂ : List Token} →
    as₁.tokens ++ .symbol .closeParen :: r₁ = as₂.tokens ++ .symbol .closeParen :: r₂ →
    (⟨m, as₁⟩ : (k : Nat) × Arguments k) = ⟨n, as₂⟩ ∧ r₁ = r₂
  | _, _, .last e₁, .last e₂, r₁, r₂, h => by
    obtain ⟨rfl, hr⟩ := e₁.tokens_inj e₂ (stopsExpression_close _)
        (stopsExpression_close _) h
    exact ⟨rfl, (List.cons.inj hr).2⟩
  | _, _, .last e₁, .more e₂ more₂, r₁, r₂, h => by
    simp only [Arguments.tokens, List.append_assoc, List.cons_append] at h
    obtain ⟨-, hr⟩ := e₁.tokens_inj e₂ (stopsExpression_close _)
        (stopsExpression_comma _) h
    simp at hr
  | _, _, .more e₁ more₁, .last e₂, r₁, r₂, h => by
    simp only [Arguments.tokens, List.append_assoc, List.cons_append] at h
    obtain ⟨-, hr⟩ := e₁.tokens_inj e₂ (stopsExpression_comma _)
        (stopsExpression_close _) h
    simp at hr
  | _, _, .more e₁ more₁, .more e₂ more₂, r₁, r₂, h => by
    simp only [Arguments.tokens, List.append_assoc, List.cons_append] at h
    obtain ⟨rfl, hmore⟩ := e₁.tokens_inj e₂ (stopsExpression_comma _)
        (stopsExpression_comma _) h
    obtain ⟨has, hr⟩ := more₁.tokens_inj more₂ (List.cons.inj hmore).2
    cases has
    exact ⟨rfl, hr⟩
  termination_by structural _ _ as => as

end

/-- A list of tokens has at most one derivation. -/
theorem Expression.eq_of_tokens_eq {d₁ d₂ : Expression} (h : d₁.tokens = d₂.tokens) : d₁ = d₂ :=
  (d₁.tokens_inj d₂ stopsExpression_nil stopsExpression_nil (congrArg (· ++ []) h)).1

end RadixCalc.Grammar
