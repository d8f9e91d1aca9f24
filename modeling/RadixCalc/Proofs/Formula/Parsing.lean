import RadixCalc.Proofs.Formula.Completeness
import RadixCalc.Proofs.Formula.Unambiguous

/-!
# The readers read the grammar

What a reader finds is a derivation: the tokens it took are the tokens of a phrase, the tree it
built is the tree of that phrase, and no operand of it lies too deep. With the other direction
(`RadixCalc.Proofs.Formula.Completeness`) and uniqueness (`RadixCalc.Proofs.Formula.Unambiguous`)
this decides which lists of tokens are formulas, and which tree each of them is
(`ofTokens_eq_ok_iff`).

There is one theorem for each reader, in one mutual induction over the tokens that are left; where
two readers start on the same tokens, the one that calls the other is counted higher. A reader of
chains never finds a whole rule at once. It carries the tree of what it has read so far, and
`chainFrom_derives` keeps with that tree the chain that built it.
-/

namespace RadixCalc.Grammar

open Formula

/-! ## Phrases

The measure is nine times the number of tokens, for the nine readers, and the place of a reader
among those that hand the same tokens on. -/

mutual

/-- What the reader of expressions takes is an expression: a chain, or a condition with its two
branches. -/
theorem expression_derives {depth : Nat} {ts rest : List Token} {e : Formula}
    (h : found (parseExpression depth ts) = .ok (e, rest)) :
    ∃ d : Expression, ts = d.tokens ++ rest ∧ d.formula = e ∧ depth + d.nesting < maxDepth := by
  rw [found_parseExpression] at h
  obtain ⟨⟨c, ts₁⟩, hc, h⟩ := bind_eq_ok h
  have hlt₁ := length_lt_of_found hc
  obtain ⟨c, hts, rfl, hcn, -⟩ := chain_derives (by decide) hc
  simp only at h
  cases hq : behind? .question ts₁ with
  | none =>
    rw [hq] at h
    cases h
    exact ⟨.chain c, hts, rfl, hcn⟩
  | some ts₂ =>
    simp only [hq] at h
    have hts₁ := behind?_eq_some hq
    have hlt₂ := length_lt_of_behind? hq
    obtain ⟨⟨a, ts₃⟩, ha, h⟩ := bind_eq_ok h
    have hlt₃ := length_lt_of_found ha
    obtain ⟨yes, hts₂, rfl, hyn⟩ := expression_derives ha
    simp only at h
    cases hcol : behind? .colon ts₃ with
    | none =>
      rw [hcol] at h
      cases h
    | some ts₄ =>
      have hts₃ := behind?_eq_some hcol
      have hlt₄ := length_lt_of_behind? hcol
      simp only [hcol] at h
      obtain ⟨⟨b, ts₅⟩, hb, h⟩ := bind_eq_ok h
      obtain ⟨no, hts₄, rfl, hnn⟩ := expression_derives hb
      cases h
      refine ⟨.cond c yes no, by simp [Expression.tokens, *], rfl, ?_⟩
      rw [Expression.nesting]
      omega
  termination_by 9 * ts.length + 6
  decreasing_by all_goals omega

theorem chain_derives {level depth : Nat} (hlevel : level ≤ 10) {ts rest : List Token} {e : Formula}
    (h : found (parseChain level depth ts) = .ok (e, rest)) :
    ∃ c : Chain level, ts = c.tokens ++ rest ∧ c.formula = e ∧ depth + c.nesting < maxDepth ∧
      StopsChain level rest := by
  rw [found_parseChain] at h
  obtain ⟨⟨left, ts₁⟩, hu, h⟩ := bind_eq_ok h
  have hlt := length_lt_of_found hu
  obtain ⟨u, hts, rfl, hun, hcaret⟩ := operand_derives hu
  rw [hts]
  exact chainFrom_derives (.operand u) hlevel hun (stopsChain_of_behind?_caret hcaret) h
  termination_by 9 * ts.length + 5
  decreasing_by all_goals omega

/-- A reader that goes on from a chain it has read ends with a chain of its own level, made of that
chain and the tokens it took. -/
theorem chainFrom_derives {level depth n : Nat} (c : Chain n) (hlevel : level ≤ n)
    (hc : depth + c.nesting < maxDepth) {ts rest : List Token} (hts : StopsChain (n + 1) ts)
    {e : Formula}
    (h : found (parseChainFrom level depth c.formula ts) = .ok (e, rest)) :
    ∃ d : Chain level, c.tokens ++ ts = d.tokens ++ rest ∧ d.formula = e ∧
      depth + d.nesting < maxDepth ∧ StopsChain level rest := by
  -- Where the reader stops, what it has read is a chain of its own, looser level.
  obtain ⟨d, hdt, hdf, hdn⟩ := c.exists_loosen hlevel
  rw [← hdt]
  cases hcase : ts with
  | nil =>
    rw [hcase, found_parseChainFrom_nil] at h
    cases h
    exact ⟨d, rfl, hdf, by rwa [hdn], trivial⟩
  | cons t ts₁ =>
    rw [hcase] at h hts
    rw [found_parseChainFrom_cons] at h
    cases ht : t.binary? with
    | none =>
      rw [ht] at h
      cases h
      exact ⟨d, rfl, hdf, by rwa [hdn], hts.1, by simp [ht]⟩
    | some q =>
      obtain ⟨p, op⟩ := q
      simp only [ht] at h
      split at h
      · next hp =>
        cases h
        exact ⟨d, rfl, hdf, by rwa [hdn], hts.1, by simpa [ht] using hp⟩
      · next hp =>
        obtain ⟨hop, rfl⟩ := token_of_binary? ht
        obtain ⟨⟨right, ts₂⟩, hr, h⟩ := bind_eq_ok h
        have hlen : ts.length = ts₁.length + 1 := congrArg List.length hcase
        have hlt := length_lt_of_found hr
        have hbounds := level_bounds hop
        obtain ⟨r, hts₁, rfl, hrn, hstops⟩ := chain_derives (by omega) hr
        obtain ⟨c', hct, hcf, hcn⟩ := c.exists_snoc (Nat.le_of_lt_succ (hts.2 _ ht)) hop r
        rw [← hcf] at h
        obtain ⟨d', hdt', hdf', hdn', hrest⟩ :=
          chainFrom_derives c' (not_lt.1 hp) (by omega) hstops h
        exact ⟨d', by rw [← hdt', hct, hdt, hts₁]; simp, hdf', hdn', hrest⟩
  termination_by 9 * ts.length
  decreasing_by all_goals omega

/-- What the reader of operands takes is an operand whose power is complete: no `^` follows. -/
theorem operand_derives {depth : Nat} {ts rest : List Token} {e : Formula}
    (h : found (parseOperand depth ts) = .ok (e, rest)) :
    ∃ u : Operand, ts = u.tokens ++ rest ∧ u.formula = e ∧ depth + u.nesting < maxDepth ∧
      behind? .caret rest = none := by
  rw [found_parseOperand] at h
  split at h
  · cases h
  · next hd => exact prefixed_derives (by omega) h
  termination_by 9 * ts.length + 4

theorem prefixed_derives {depth : Nat} (hd : depth < maxDepth) {ts rest : List Token} {e : Formula}
    (h : found (parsePrefixed (depth + 1) ts) = .ok (e, rest)) :
    ∃ u : Operand, ts = u.tokens ++ rest ∧ u.formula = e ∧ depth + u.nesting < maxDepth ∧
      behind? .caret rest = none := by
  match ts with
  | [] =>
    rw [found_parsePrefixed_nil] at h
    cases h
  | t :: ts₁ =>
    rw [found_parsePrefixed_cons] at h
    cases ht : t.unary? with
    | none =>
      simp only [ht] at h
      obtain ⟨p, hts, hf, hn, hcaret⟩ := power_derives hd h
      exact ⟨.mk [] p, hts, hf, hn, hcaret⟩
    | some op =>
      simp only [ht] at h
      obtain ⟨⟨x, ts₂⟩, hx, h⟩ := bind_eq_ok h
      obtain ⟨⟨ops, p⟩, hts, rfl, hn, hcaret⟩ := prefixed_derives hd hx
      cases h
      obtain rfl := token_of_unary? ht
      exact ⟨.mk (op :: ops) p, by rw [hts, Operand.tokens_cons, List.cons_append], rfl, hn, hcaret⟩
  termination_by 9 * ts.length + 3

theorem power_derives {depth : Nat} (hd : depth < maxDepth) {ts rest : List Token} {e : Formula}
    (h : found (parsePower (depth + 1) ts) = .ok (e, rest)) :
    ∃ p : Power, ts = p.tokens ++ rest ∧ p.formula = e ∧ depth + p.nesting < maxDepth ∧
      behind? .caret rest = none := by
  rw [found_parsePower] at h
  obtain ⟨⟨base, ts₁⟩, ha, h⟩ := bind_eq_ok h
  have hlt₁ := length_lt_of_found ha
  obtain ⟨a, hts, rfl, han⟩ := primary_derives hd ha
  simp only at h
  cases hq : behind? .caret ts₁ with
  | none =>
    rw [hq] at h
    cases h
    exact ⟨.plain a, hts, rfl, han, hq⟩
  | some ts₂ =>
    simp only [hq] at h
    have hts₁ := behind?_eq_some hq
    have hlt₂ := length_lt_of_behind? hq
    obtain ⟨⟨x, ts₃⟩, hx, h⟩ := bind_eq_ok h
    obtain ⟨u, hts₂, rfl, hun, hcaret⟩ := operand_derives hx
    cases h
    refine ⟨.raised a u, by simp [Power.tokens, *], rfl, ?_, hcaret⟩
    rw [Power.nesting]
    omega
  termination_by 9 * ts.length + 2
  decreasing_by all_goals omega

/-- What the reader of primaries takes is a number, a variable, a group or a call with as many
arguments as its function has. -/
theorem primary_derives {depth : Nat} (hd : depth < maxDepth) {ts rest : List Token} {e : Formula}
    (h : found (parsePrimary (depth + 1) ts) = .ok (e, rest)) :
    ∃ a : Primary, ts = a.tokens ++ rest ∧ a.formula = e ∧ depth + a.nesting < maxDepth := by
  rcases found_parsePrimary_ok h with
    ⟨v, rfl, rfl⟩ | ⟨name, rfl, rfl⟩ | ⟨name, args, f, ts₁, hts, hargs, hf, ha, rfl⟩ |
    ⟨ts₁, hts, hargs⟩
  · exact ⟨.number v, rfl, rfl, hd⟩
  · exact ⟨.var name, rfl, rfl, hd⟩
  · obtain rfl := name_of_ofName? hf
    have hlen : ts.length = ts₁.length + 1 + 1 := congrArg List.length hts
    rcases arguments_derives hargs with ⟨rfl, rfl⟩ | ⟨n, as, hts₁, rfl, han⟩
    · exact ⟨.constant f ha, hts, rfl, hd⟩
    · rw [as.length_formulas] at ha
      refine ⟨.call f as ha, by simp [Primary.tokens, *], rfl, ?_⟩
      rw [Primary.nesting]
      omega
  · have hlen : ts.length = ts₁.length + 1 := congrArg List.length hts
    rcases arguments_derives hargs with ⟨h, -⟩ | ⟨n, as, hts₁, has, han⟩
    · cases h
    · cases as with
      | last x =>
        cases has
        rw [Arguments.nesting] at han
        refine ⟨.group x, by simp [Primary.tokens, Arguments.tokens, *], rfl, ?_⟩
        rw [Primary.nesting]
        omega
      | more x more =>
        exact absurd (List.cons.inj has).2 more.formulas_ne_nil
  termination_by 9 * ts.length + 1
  decreasing_by all_goals omega

/-- Between brackets stand no arguments at all or a list of them. -/
theorem arguments_derives {depth : Nat} {ts rest : List Token} {args : List Formula}
    (h : found (parseArguments depth ts) = .ok (args, rest)) :
    (args = [] ∧ ts = .symbol .closeParen :: rest) ∨
    ∃ n, ∃ as : Arguments n, ts = as.tokens ++ .symbol .closeParen :: rest ∧ as.formulas = args ∧
      depth + as.nesting < maxDepth := by
  cases hq : behind? .closeParen ts with
  | none =>
    rw [found_parseArguments hq] at h
    exact .inr (items_derives h)
  | some ts₁ =>
    have hts := behind?_eq_some hq
    rw [hts, found_parseArguments_close] at h
    cases h
    exact .inl ⟨rfl, hts⟩
  termination_by 9 * ts.length + 8

theorem items_derives {depth : Nat} {ts rest : List Token} {args : List Formula}
    (h : found (parseItems depth ts) = .ok (args, rest)) :
    ∃ n, ∃ as : Arguments n, ts = as.tokens ++ .symbol .closeParen :: rest ∧ as.formulas = args ∧
      depth + as.nesting < maxDepth := by
  rw [found_parseItems] at h
  obtain ⟨⟨x, ts₁⟩, hx, h⟩ := bind_eq_ok h
  have hlt₁ := length_lt_of_found hx
  obtain ⟨x, hts, rfl, hxn⟩ := expression_derives hx
  simp only at h
  cases hq : behind? .comma ts₁ with
  | none =>
    simp only [hq] at h
    split at h
    · next hclose =>
      cases h
      exact ⟨1, .last x, by rw [hts, behind?_eq_some hclose, Arguments.tokens], rfl, hxn⟩
    · cases h
  | some ts₂ =>
    simp only [hq] at h
    have hts₁ := behind?_eq_some hq
    have hlt₂ := length_lt_of_behind? hq
    obtain ⟨⟨xs, ts₃⟩, hxs, h⟩ := bind_eq_ok h
    obtain ⟨n, as, hts₂, rfl, han⟩ := items_derives hxs
    cases h
    refine ⟨n + 1, .more x as, by simp [Arguments.tokens, *], rfl, ?_⟩
    rw [Arguments.nesting]
    omega
  termination_by 9 * ts.length + 7
  decreasing_by all_goals omega

end

/-! ## Whole lists of tokens -/

/-- What is read as a formula derives it, within the bounds on length and depth. -/
theorem derives_of_ofTokens {ts : List Token} {e : Formula} (h : ofTokens ts = .ok e) :
    ∃ d : Expression, d.tokens = ts ∧ d.formula = e ∧ d.nesting < maxDepth := by
  obtain ⟨hne, hlen⟩ := bounds_of_ofTokens h
  rw [ofTokens_eq hne hlen] at h
  obtain ⟨⟨e', rest⟩, hfound, h⟩ := bind_eq_ok h
  obtain ⟨d, hts, rfl, hd⟩ := expression_derives hfound
  simp only at h
  split at h
  · next hrest =>
    cases h
    rw [List.isEmpty_iff.1 hrest, List.append_nil] at hts
    exact ⟨d, hts.symm, rfl, by omega⟩
  · cases h

end RadixCalc.Grammar

namespace RadixCalc.Formula

/-- A list of tokens is read as a formula exactly when it is not empty, has at most 4096 tokens and
derives the formula in the grammar, with no operand inside more than 255 parentheses, argument lists
and exponents; and it has at most one derivation. -/
theorem ofTokens_eq_ok_iff (ts : List Token) (e : Formula) :
    (ofTokens ts = .ok e ↔
      ts ≠ [] ∧ ts.length ≤ 4096 ∧
        ∃ d : Grammar.Expression, d.tokens = ts ∧ d.formula = e ∧ d.nesting ≤ 255) ∧
      ∀ d₁ d₂ : Grammar.Expression, d₁.tokens = ts → d₂.tokens = ts → d₁ = d₂ := by
  refine ⟨⟨?_, ?_⟩, ?_⟩
  · intro h
    obtain ⟨hne, hlen⟩ := bounds_of_ofTokens h
    obtain ⟨d, hts, hf, hd⟩ := Grammar.derives_of_ofTokens h
    exact ⟨hne, hlen, d, hts, hf, Nat.le_of_lt_succ hd⟩
  · rintro ⟨-, hlen, d, rfl, rfl, hd⟩
    rw [Grammar.ofTokens_tokens d hlen]
    exact if_pos (show 0 + d.nesting < 256 by omega)
  · rintro d₁ d₂ rfl h
    exact Grammar.Expression.eq_of_tokens_eq h.symm

end RadixCalc.Formula
