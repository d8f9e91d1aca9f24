import RadixCalc.Proofs.Formula.Reading

/-!
# How reading a formula fails

A text that is no formula fails in one of three ways: it breaks the grammar, it calls a function
with a wrong number of arguments, or it calls what is no function. This file shows that no reader of
formulas fails otherwise, from one token up to a whole text (`Formula.failsToRead_ofText`).

`FailsToRead` is closed under sequencing, so the readers are one mutual induction over the tokens
that are left, with the measure of `RadixCalc.Formula.Parser`.
-/

namespace RadixCalc

/-- If the outcome is a failure, it is one of reading a formula. -/
def FailsToRead {α : Type} (outcome : Except Failure α) : Prop :=
  ∀ e, outcome = .error e → e.isFormulaFailure = true

namespace FailsToRead

variable {α β : Type}

theorem ok (a : α) : FailsToRead (.ok a) :=
  fun _ h => by cases h

theorem fault (f : FormulaFault) : FailsToRead (Formula.fault f : Except Failure α) :=
  fun _ h => by
    cases h
    rfl

/-- Two steps in a row fail as reading does if each of them does. -/
theorem bind {x : Except Failure α} {f : α → Except Failure β} (hx : FailsToRead x)
    (hf : ∀ a, x = .ok a → FailsToRead (f a)) : FailsToRead (x.bind f) := by
  cases x with
  | error e =>
    intro e' h
    cases h
    exact hx e rfl
  | ok a => exact hf a rfl

end FailsToRead

/-! ## Tokens -/

/-- Where no token begins, the text is illegal, and it fails for no other reason. -/
theorem Token.failsToRead_ofTextFrom (before : List Token) (text : Text) :
    FailsToRead (ofTextFrom before text) := by
  fun_induction ofTextFrom before text with
  | case1 before => exact .ok _
  | case2 before c cs hblank ih => exact ih
  | case3 before c cs hblank token rest hread hlt ih => exact ih
  | case4 before c cs hblank hread => exact .fault _

theorem Token.failsToRead_ofText (text : Text) : FailsToRead (ofText text) :=
  failsToRead_ofTextFrom [] text

namespace Formula

/-! ## Phrases -/

mutual

/-- Each reader fails only through `fault`, its own or that of a reader it calls on fewer tokens. -/
theorem failsToRead_expression (depth : Nat) (ts : List Token) :
    FailsToRead (found (parseExpression depth ts)) := by
  rw [found_parseExpression]
  refine .bind (failsToRead_chain 1 depth ts) fun ⟨c, ts₁⟩ hc => ?_
  have hlt₁ := length_lt_of_found hc
  simp only
  cases hq : behind? .question ts₁ with
  | none => exact .ok _
  | some ts₂ =>
    have hlt₂ := length_lt_of_behind? hq
    refine .bind (failsToRead_expression depth ts₂) fun ⟨a, ts₃⟩ ha => ?_
    have hlt₃ := length_lt_of_found ha
    simp only
    cases hcol : behind? .colon ts₃ with
    | none => exact .fault _
    | some ts₄ =>
      have hlt₄ := length_lt_of_behind? hcol
      exact .bind (failsToRead_expression depth ts₄) fun _ _ => .ok _
  termination_by 9 * ts.length + 6
  decreasing_by all_goals omega

theorem failsToRead_chain (level depth : Nat) (ts : List Token) :
    FailsToRead (found (parseChain level depth ts)) := by
  rw [found_parseChain]
  refine .bind (failsToRead_operand depth ts) fun ⟨left, ts₁⟩ hleft => ?_
  have hlt := length_lt_of_found hleft
  exact failsToRead_chainFrom level depth left ts₁
  termination_by 9 * ts.length + 5
  decreasing_by all_goals omega

/-- The operator a chain goes on with is a token less to read. -/
theorem failsToRead_chainFrom (level depth : Nat) (left : Formula) (ts : List Token) :
    FailsToRead (found (parseChainFrom level depth left ts)) := by
  match ts with
  | [] =>
    rw [found_parseChainFrom_nil]
    exact .ok _
  | t :: ts₁ =>
    rw [found_parseChainFrom_cons]
    cases t.binary? with
    | none => exact .ok _
    | some q =>
      simp only
      split
      · exact .ok _
      · refine .bind (failsToRead_chain (q.1 + 1) depth ts₁) fun ⟨right, ts₂⟩ hright => ?_
        have hlt := length_lt_of_found hright
        exact failsToRead_chainFrom level depth (.binary q.2 left right) ts₂
  termination_by 9 * ts.length
  decreasing_by all_goals simp only [List.length_cons]; omega

theorem failsToRead_operand (depth : Nat) (ts : List Token) :
    FailsToRead (found (parseOperand depth ts)) := by
  rw [found_parseOperand]
  split
  · exact .fault _
  · exact failsToRead_prefixed (depth + 1) ts
  termination_by 9 * ts.length + 4

theorem failsToRead_prefixed (depth : Nat) (ts : List Token) :
    FailsToRead (found (parsePrefixed depth ts)) := by
  match ts with
  | [] =>
    rw [found_parsePrefixed_nil]
    exact .fault _
  | t :: ts₁ =>
    rw [found_parsePrefixed_cons]
    cases t.unary? with
    | none => exact failsToRead_power depth (t :: ts₁)
    | some op => exact .bind (failsToRead_prefixed depth ts₁) fun _ _ => .ok _
  termination_by 9 * ts.length + 3

theorem failsToRead_power (depth : Nat) (ts : List Token) :
    FailsToRead (found (parsePower depth ts)) := by
  rw [found_parsePower]
  refine .bind (failsToRead_primary depth ts) fun ⟨base, ts₁⟩ hbase => ?_
  have hlt₁ := length_lt_of_found hbase
  simp only
  cases hq : behind? .caret ts₁ with
  | none => exact .ok _
  | some ts₂ =>
    have hlt₂ := length_lt_of_behind? hq
    exact .bind (failsToRead_operand depth ts₂) fun _ _ => .ok _
  termination_by 9 * ts.length + 2
  decreasing_by all_goals omega

/-- A call fails where its name is no function's, or where the number of arguments is wrong. -/
theorem failsToRead_primary (depth : Nat) (ts : List Token) :
    FailsToRead (found (parsePrimary depth ts)) := by
  match ts with
  | [] =>
    rw [parsePrimary]
    exact .fault _
  | .number v :: ts₁ =>
    rw [found_parsePrimary_number]
    exact .ok _
  | .placeholder name :: ts₁ =>
    rw [found_parsePrimary_placeholder]
    exact .ok _
  | .word name :: ts₁ =>
    cases hopen : behind? .openParen ts₁ with
    | none =>
      rw [found_parsePrimary_word hopen]
      exact .fault _
    | some ts₂ =>
      have hlt := length_lt_of_behind? hopen
      rw [behind?_eq_some hopen, found_parsePrimary_call]
      refine .bind (failsToRead_arguments depth ts₂) fun ⟨args, rest⟩ _ => ?_
      -- A call fails behind its arguments, by its name or by their number.
      simp only
      split
      · rintro e ⟨⟩
        rfl
      · split
        · exact .ok _
        · rintro e ⟨⟩
          rfl
  | .symbol s :: ts₁ =>
    by_cases hs : s = .openParen
    · rw [hs, found_parsePrimary_group]
      refine .bind (failsToRead_arguments depth ts₁) fun ⟨args, rest⟩ _ => ?_
      simp only
      split
      · exact .ok _
      · exact .fault _
    · rw [found_parsePrimary_symbol hs]
      exact .fault _
  termination_by 9 * ts.length + 1
  decreasing_by all_goals simp only [List.length_cons]; omega

theorem failsToRead_arguments (depth : Nat) (ts : List Token) :
    FailsToRead (found (parseArguments depth ts)) := by
  cases hq : behind? .closeParen ts with
  | none =>
    rw [found_parseArguments hq]
    exact failsToRead_items depth ts
  | some ts₁ =>
    rw [behind?_eq_some hq, found_parseArguments_close]
    exact .ok _
  termination_by 9 * ts.length + 8

theorem failsToRead_items (depth : Nat) (ts : List Token) :
    FailsToRead (found (parseItems depth ts)) := by
  rw [found_parseItems]
  refine .bind (failsToRead_expression depth ts) fun ⟨x, ts₁⟩ hx => ?_
  have hlt₁ := length_lt_of_found hx
  simp only
  cases hq : behind? .comma ts₁ with
  | none =>
    simp only
    split
    · exact .ok _
    · exact .fault _
  | some ts₂ =>
    have hlt₂ := length_lt_of_behind? hq
    exact .bind (failsToRead_items depth ts₂) fun _ _ => .ok _
  termination_by 9 * ts.length + 7
  decreasing_by all_goals omega

end

/-! ## Whole formulas -/

/-- No tokens, too many tokens and tokens left over are faults of reading too. -/
theorem failsToRead_ofTokens (ts : List Token) : FailsToRead (ofTokens ts) := by
  by_cases hne : ts = []
  · subst hne
    exact .fault _
  · by_cases hlen : ts.length ≤ maxTokens
    · rw [ofTokens_eq hne hlen]
      refine .bind (failsToRead_expression 0 ts) fun ⟨e, rest⟩ _ => ?_
      simp only
      split
      · exact .ok _
      · exact .fault _
    · rw [ofTokens, if_neg (by simpa using hne), if_pos (Nat.not_le.1 hlen)]
      exact .fault _

/-- Reading a formula fails only as reading a formula can. -/
theorem failsToRead_ofText (text : Text) : FailsToRead (ofText text) := by
  intro e h
  unfold ofText at h
  split at h
  · next e' htokens =>
    cases h
    exact Token.failsToRead_ofText text e htokens
  · next ts htokens => exact failsToRead_ofTokens ts e h

end Formula

end RadixCalc
