import RadixCalc.Proofs.Formula.Closing
import RadixCalc.Proofs.Formula.Parsing

/-!
# The innermost failure

Of several bad calls in a formula the reader reports the innermost one, because a call is checked
behind its arguments. So what is wrong with a call in a text is still what is reported when the text
stands in parentheses, or is the argument of another call, of whatever name and arity. Only the two
limits can come first: the number of tokens, which is checked before anything is read, and the
nesting, which is one level greater in parentheses.

* `Continues` compares the outcome of a reader with its outcome on the same tokens in front of a
  closing parenthesis, at another depth; `continues_expression` and its companions show it for all
  readers, in one mutual induction.
* `openings` counts the tokens that open a level, and so bounds how deep a reader can get.
* `ofText_innermost` is the result for texts.
-/

namespace RadixCalc

/-- Tells whether the failure is about the name of a function or the number of its arguments. -/
def Failure.isAboutCall : Failure → Bool
  | badArity _ _ => true
  | unsupportedFunction _ => true
  | _ => false

namespace Formula

/-! ## Tokens that open a level -/

/-- Tells whether what stands behind the token lies one level deeper. -/
def opensLevel (t : Token) : Bool :=
  t = .symbol .openParen || t = .symbol .caret

/-- The number of tokens that open a level. -/
def openings (ts : List Token) : ℕ :=
  ts.countP opensLevel

theorem openings_append (ts rest : List Token) :
    openings (ts ++ rest) = openings ts + openings rest :=
  List.countP_append

theorem openings_cons_le (t : Token) (ts : List Token) : openings ts ≤ openings (t :: ts) :=
  (List.sublist_cons_self t ts).countP_le

theorem openings_behind? {s : Symbol} {ts rest : List Token} (h : behind? s ts = some rest) :
    openings rest ≤ openings ts := by
  rw [behind?_eq_some h]
  exact openings_cons_le _ _

theorem openings_caret {ts rest : List Token} (h : behind? .caret ts = some rest) :
    openings ts = openings rest + 1 := by
  rw [behind?_eq_some h]
  exact List.countP_cons_of_pos rfl

theorem openings_openParen (ts : List Token) :
    openings (.symbol .openParen :: ts) = openings ts + 1 :=
  List.countP_cons_of_pos rfl

/-! ## In front of a closing parenthesis -/

/-- The tokens with a closing parenthesis behind them. -/
def closedTokens (ts : List Token) : List Token :=
  ts ++ [.symbol .closeParen]

theorem closedTokens_cons (t : Token) (ts : List Token) :
    closedTokens (t :: ts) = t :: closedTokens ts := rfl

theorem behind?_closedTokens {s : Symbol} (hs : s ≠ .closeParen) (ts : List Token) :
    behind? s (closedTokens ts) = (behind? s ts).map closedTokens := by
  cases ts with
  | nil => exact if_neg (by simpa using hs.symm)
  | cons t ts =>
    rw [closedTokens_cons, behind?, behind?]
    split
    · rfl
    · rfl

/-- The outcome is that the nesting is too deep, and this needs the given number of levels. -/
def GivesUp {α : Type} (levels : ℕ) (outcome : Except Failure α) : Prop :=
  outcome = fault .tooDeep ∧ maxDepth ≤ levels

/-- The second outcome goes on as the first where that is a value, with a parenthesis behind its
tokens, and where it is a failure of a call; or it gives up. -/
structure Continues {α : Type} (levels : ℕ) (outcome outcome' : Except Failure (α × List Token)) :
    Prop where
  value : ∀ v rest, outcome = .ok (v, rest) →
    outcome' = .ok (v, closedTokens rest) ∨ GivesUp levels outcome'
  failure : ∀ e, outcome = .error e → e.isAboutCall = true →
    outcome' = .error e ∨ GivesUp levels outcome'

namespace Continues

variable {α β : Type} {levels : ℕ}

theorem ok (v : α) (rest : List Token) :
    Continues levels (.ok (v, rest)) (.ok (v, closedTokens rest)) where
  value := by
    rintro _ _ ⟨⟩
    exact .inl rfl
  failure := nofun

theorem error (e : Failure) (outcome' : Except Failure (α × List Token))
    (h : e.isAboutCall = true → outcome' = .error e) : Continues levels (.error e) outcome' where
  value := nofun
  failure := by
    rintro _ ⟨⟩ he
    exact .inl (h he)

/-- Nothing is asked where the first outcome breaks the grammar. -/
theorem fault (f : FormulaFault) (outcome' : Except Failure (α × List Token)) :
    Continues levels (Formula.fault f) outcome' :=
  error _ _ nofun

theorem mono {levels' : ℕ} {outcome outcome' : Except Failure (α × List Token)}
    (h : Continues levels outcome outcome') (hle : levels ≤ levels') :
    Continues levels' outcome outcome' where
  value := by
    intro v rest hok
    exact (h.value v rest hok).imp_right fun hup => ⟨hup.1, hup.2.trans hle⟩
  failure := by
    intro e herror he
    exact (h.failure e herror he).imp_right fun hup => ⟨hup.1, hup.2.trans hle⟩

theorem bind {x x' : Except Failure (α × List Token)}
    {f g : α × List Token → Except Failure (β × List Token)} (hx : Continues levels x x')
    (hf : ∀ v rest, x = .ok (v, rest) →
      Continues levels (f (v, rest)) (g (v, closedTokens rest))) :
    Continues levels (x.bind f) (x'.bind g) := by
  have hgiven : GivesUp levels x' → Continues levels (x.bind f) (x'.bind g) := by
    rintro ⟨rfl, hle⟩
    exact ⟨fun _ _ _ => .inr ⟨rfl, hle⟩, fun _ _ _ => .inr ⟨rfl, hle⟩⟩
  cases x with
  | error e =>
    constructor
    · intro v rest h
      cases h
    · rintro _ ⟨⟩ he
      rcases hx.failure e rfl he with rfl | ⟨rfl, hle⟩
      · exact .inl rfl
      · exact .inr ⟨rfl, hle⟩
  | ok a =>
    obtain ⟨v, rest⟩ := a
    rcases hx.value v rest rfl with rfl | hup
    · exact hf v rest rfl
    · exact hgiven hup

end Continues

/-- Behind an opening parenthesis that ends the tokens nothing is read. -/
theorem found_parseItems_nil (depth : ℕ) : ∃ f, found (parseItems depth []) = fault f := by
  rw [found_parseItems, found_parseExpression, found_parseChain, found_parseOperand]
  split
  · exact ⟨_, rfl⟩
  · rw [found_parsePrefixed_nil]
    exact ⟨_, rfl⟩

/-- Where tokens are split, the second part opens no more levels than the whole. -/
theorem openings_le_of_eq {ts front rest : List Token} (h : ts = front ++ rest) :
    openings rest ≤ openings ts := by
  rw [h, openings_append]
  exact Nat.le_add_left _ _

/-! ## Phrases

The levels that a reader may need are those around its tokens and those that its tokens open. The
readers of operands count one level more than the phrase around them. -/

mutual

theorem continues_expression (depth depth' : ℕ) (ts : List Token) :
    Continues (depth' + openings ts) (found (parseExpression depth ts))
      (found (parseExpression depth' (closedTokens ts))) := by
  rw [found_parseExpression, found_parseExpression]
  refine (continues_chain 1 depth depth' ts).bind fun c ts₁ hc => ?_
  have hlt₁ := length_lt_of_found hc
  obtain ⟨_, hts, -⟩ := Grammar.chain_derives (by decide) hc
  have hopen₁ := openings_le_of_eq hts
  simp only [behind?_closedTokens (s := .question) (by decide)]
  cases hq : behind? .question ts₁ with
  | none => exact .ok c ts₁
  | some ts₂ =>
    have hlt₂ := length_lt_of_behind? hq
    have hopen₂ := openings_behind? hq
    refine ((continues_expression depth depth' ts₂).mono (by omega)).bind fun a ts₃ ha => ?_
    have hlt₃ := length_lt_of_found ha
    obtain ⟨_, hts₂, -⟩ := Grammar.expression_derives ha
    have hopen₃ := openings_le_of_eq hts₂
    simp only [behind?_closedTokens (s := .colon) (by decide)]
    cases hcol : behind? .colon ts₃ with
    | none => exact .fault _ _
    | some ts₄ =>
      have hlt₄ := length_lt_of_behind? hcol
      have hopen₄ := openings_behind? hcol
      refine ((continues_expression depth depth' ts₄).mono (by omega)).bind fun b rest _ => ?_
      exact .ok _ rest
  termination_by 9 * ts.length + 6
  decreasing_by all_goals omega

theorem continues_chain (level depth depth' : ℕ) (ts : List Token) :
    Continues (depth' + openings ts) (found (parseChain level depth ts))
      (found (parseChain level depth' (closedTokens ts))) := by
  rw [found_parseChain, found_parseChain]
  refine (continues_operand depth depth' ts).bind fun left ts₁ hleft => ?_
  have hlt := length_lt_of_found hleft
  obtain ⟨_, hts, -⟩ := Grammar.operand_derives hleft
  have hopen := openings_le_of_eq hts
  exact (continues_chainFrom level depth depth' left ts₁).mono (by omega)
  termination_by 9 * ts.length + 5
  decreasing_by all_goals omega

theorem continues_chainFrom (level depth depth' : ℕ) (left : Formula) (ts : List Token) :
    Continues (depth' + openings ts) (found (parseChainFrom level depth left ts))
      (found (parseChainFrom level depth' left (closedTokens ts))) := by
  match ts with
  | [] =>
    have hstop : found (parseChainFrom level depth' left (closedTokens [])) =
        .ok (left, closedTokens []) := found_parseChainFrom_cons ..
    rw [found_parseChainFrom_nil, hstop]
    exact .ok left []
  | t :: ts₁ =>
    rw [closedTokens_cons, found_parseChainFrom_cons, found_parseChainFrom_cons]
    cases ht : t.binary? with
    | none => exact .ok left (t :: ts₁)
    | some q =>
      obtain ⟨p, op⟩ := q
      have hbounds := Grammar.level_bounds (Grammar.token_of_binary? ht).1
      have hopen := openings_cons_le t ts₁
      have hnext : p + 1 ≤ 10 := by omega
      simp only
      split
      · exact .ok left (t :: ts₁)
      · refine ((continues_chain (p + 1) depth depth' ts₁).mono (by omega)).bind
          fun right ts₂ hright => ?_
        have hlt := length_lt_of_found hright
        obtain ⟨_, hts₁, -⟩ := Grammar.chain_derives hnext hright
        have hopen₂ := openings_le_of_eq hts₁
        exact (continues_chainFrom level depth depth' (.binary op left right) ts₂).mono (by omega)
  termination_by 9 * ts.length
  decreasing_by all_goals simp only [List.length_cons]; omega

theorem continues_operand (depth depth' : ℕ) (ts : List Token) :
    Continues (depth' + openings ts) (found (parseOperand depth ts))
      (found (parseOperand depth' (closedTokens ts))) := by
  rw [found_parseOperand, found_parseOperand]
  split
  · exact .fault _ _
  · next hdepth =>
    split
    · next hdepth' =>
      -- Only here a reader gives up.
      have hup : GivesUp (depth' + openings ts)
          (fault .tooDeep : Except Failure (Formula × List Token)) := ⟨rfl, by omega⟩
      exact ⟨fun _ _ _ => .inr hup, fun _ _ _ => .inr hup⟩
    · exact continues_prefixed (by omega) depth' ts
  termination_by 9 * ts.length + 4

theorem continues_prefixed {depth : ℕ} (hdepth : depth < maxDepth) (depth' : ℕ) (ts : List Token) :
    Continues (depth' + openings ts) (found (parsePrefixed (depth + 1) ts))
      (found (parsePrefixed (depth' + 1) (closedTokens ts))) := by
  match ts with
  | [] =>
    rw [found_parsePrefixed_nil]
    exact .fault _ _
  | t :: ts₁ =>
    rw [closedTokens_cons, found_parsePrefixed_cons, found_parsePrefixed_cons]
    cases t.unary? with
    | none => exact continues_power hdepth depth' (t :: ts₁)
    | some op =>
      have hopen := openings_cons_le t ts₁
      refine ((continues_prefixed hdepth depth' ts₁).mono (by omega)).bind fun x rest _ => ?_
      exact .ok _ rest
  termination_by 9 * ts.length + 3

theorem continues_power {depth : ℕ} (hdepth : depth < maxDepth) (depth' : ℕ) (ts : List Token) :
    Continues (depth' + openings ts) (found (parsePower (depth + 1) ts))
      (found (parsePower (depth' + 1) (closedTokens ts))) := by
  rw [found_parsePower, found_parsePower]
  refine (continues_primary depth depth' ts).bind fun base ts₁ hbase => ?_
  have hlt₁ := length_lt_of_found hbase
  obtain ⟨_, hts, -⟩ := Grammar.primary_derives hdepth hbase
  have hopen₁ := openings_le_of_eq hts
  simp only [behind?_closedTokens (s := .caret) (by decide)]
  cases hq : behind? .caret ts₁ with
  | none => exact .ok base ts₁
  | some ts₂ =>
    have hlt₂ := length_lt_of_behind? hq
    have hopen₂ := openings_caret hq
    refine ((continues_operand (depth + 1) (depth' + 1) ts₂).mono (by omega)).bind
      fun exponent rest _ => ?_
    exact .ok _ rest
  termination_by 9 * ts.length + 2
  decreasing_by all_goals omega

theorem continues_primary (depth depth' : ℕ) (ts : List Token) :
    Continues (depth' + openings ts) (found (parsePrimary (depth + 1) ts))
      (found (parsePrimary (depth' + 1) (closedTokens ts))) := by
  match ts with
  | [] =>
    rw [parsePrimary]
    exact .fault _ _
  | .number v :: ts₁ =>
    rw [closedTokens_cons, found_parsePrimary_number, found_parsePrimary_number]
    exact .ok _ ts₁
  | .placeholder name :: ts₁ =>
    rw [closedTokens_cons, found_parsePrimary_placeholder, found_parsePrimary_placeholder]
    exact .ok _ ts₁
  | .word name :: ts₁ =>
    cases hopen : behind? .openParen ts₁ with
    | none =>
      rw [found_parsePrimary_word hopen]
      exact .fault _ _
    | some ts₂ =>
      have hlt := length_lt_of_behind? hopen
      have hlevel := openings_cons_le (.word name) (.symbol .openParen :: ts₂)
      rw [openings_openParen] at hlevel
      rw [behind?_eq_some hopen, closedTokens_cons, closedTokens_cons, found_parsePrimary_call,
        found_parsePrimary_call]
      refine ((continues_arguments (depth + 1) (depth' + 1) ts₂).mono (by omega)).bind
        fun args rest _ => ?_
      -- The same check of the call follows the same arguments.
      simp only
      cases Builtin.ofName? name with
      | none => exact .error _ _ fun _ => rfl
      | some f =>
        simp only
        split
        · exact .ok _ rest
        · exact .error _ _ fun _ => rfl
  | .symbol s :: ts₁ =>
    by_cases hs : s = .openParen
    · subst hs
      have hlevel := openings_openParen ts₁
      rw [closedTokens_cons, found_parsePrimary_group, found_parsePrimary_group]
      refine ((continues_arguments (depth + 1) (depth' + 1) ts₁).mono (by omega)).bind
        fun args rest _ => ?_
      simp only
      split
      · exact .ok _ rest
      · exact .fault _ _
    · rw [found_parsePrimary_symbol hs]
      exact .fault _ _
  termination_by 9 * ts.length + 1
  decreasing_by all_goals simp only [List.length_cons]; omega

theorem continues_arguments (depth depth' : ℕ) (ts : List Token) :
    Continues (depth' + openings ts) (found (parseArguments depth ts))
      (found (parseArguments depth' (closedTokens ts))) := by
  match ts with
  | [] =>
    obtain ⟨f, hf⟩ := found_parseItems_nil depth
    rw [found_parseArguments rfl, hf]
    exact .fault _ _
  | t :: ts₁ =>
    by_cases ht : t = .symbol .closeParen
    · subst ht
      rw [closedTokens_cons, found_parseArguments_close, found_parseArguments_close]
      exact .ok _ ts₁
    · have hclose : behind? .closeParen (t :: ts₁) = none := if_neg ht
      have hclose' : behind? .closeParen (closedTokens (t :: ts₁)) = none := if_neg ht
      rw [found_parseArguments hclose, found_parseArguments hclose']
      exact continues_items depth depth' (t :: ts₁)
  termination_by 9 * ts.length + 8

theorem continues_items (depth depth' : ℕ) (ts : List Token) :
    Continues (depth' + openings ts) (found (parseItems depth ts))
      (found (parseItems depth' (closedTokens ts))) := by
  rw [found_parseItems, found_parseItems]
  refine (continues_expression depth depth' ts).bind fun x ts₁ hx => ?_
  have hlt₁ := length_lt_of_found hx
  obtain ⟨_, hts, -⟩ := Grammar.expression_derives hx
  have hopen₁ := openings_le_of_eq hts
  simp only [behind?_closedTokens (s := .comma) (by decide)]
  cases hq : behind? .comma ts₁ with
  | none =>
    cases hclose : behind? .closeParen ts₁ with
    | none => exact .fault _ _
    | some rest =>
      have hclosed : behind? .closeParen (closedTokens ts₁) = some (closedTokens rest) := by
        rw [behind?_eq_some hclose, closedTokens_cons, behind?_self]
      simp only [Option.map_none, hclosed]
      exact .ok _ rest
  | some ts₂ =>
    have hlt₂ := length_lt_of_behind? hq
    have hopen₂ := openings_behind? hq
    refine ((continues_items depth depth' ts₂).mono (by omega)).bind fun xs rest _ => ?_
    exact .ok _ rest
  termination_by 9 * ts.length + 7
  decreasing_by all_goals omega

end

/-! ## Inside parentheses -/

section Primary

variable {t : Token} {ts : List Token} {e : Failure}

/-- A failure of the first primary is the failure of the expression. -/
theorem found_expression_of_primary (ht : t.unary? = none)
    (h : found (parsePrimary 1 (t :: ts)) = .error e) :
    found (parseExpression 0 (t :: ts)) = .error e := by
  rw [found_parseExpression, found_parseChain, found_parseOperand, if_neg (by decide),
    found_parsePrefixed_cons, ht]
  simp only [found_parsePower, h]
  rfl

/-- Where a call is at fault, there is a first token, and it closes no parenthesis. -/
theorem exists_cons_of_isAboutCall (h : found (parseExpression 0 ts) = .error e)
    (he : e.isAboutCall = true) : ∃ t rest, ts = t :: rest ∧ t ≠ .symbol .closeParen := by
  cases ts with
  | nil =>
    rw [found_parseExpression, found_parseChain, found_parseOperand, if_neg (by decide),
      found_parsePrefixed_nil] at h
    cases h
    cases he
  | cons t rest =>
    refine ⟨t, rest, rfl, ?_⟩
    rintro rfl
    have hmisplaced : found (parsePrimary 1 (.symbol .closeParen :: rest)) =
        fault (.misplaced [.symbol .closeParen]) := found_parsePrimary_symbol (by decide)
    rw [found_expression_of_primary rfl hmisplaced] at h
    cases h
    cases he

end Primary

section Enclosed

variable {ts : List Token} {e e' : Failure}

/-- What fails inside parentheses fails as their contents. -/
theorem found_arguments_closed (hts : ∃ t rest, ts = t :: rest ∧ t ≠ .symbol .closeParen)
    (h : found (parseExpression 1 (closedTokens ts)) = .error e) :
    found (parseArguments 1 (closedTokens ts)) = .error e := by
  obtain ⟨t, rest, rfl, ht⟩ := hts
  have hclose : behind? .closeParen (closedTokens (t :: rest)) = none := if_neg ht
  rw [found_parseArguments hclose, found_parseItems, h]
  rfl

/-- The reading of a whole list of tokens whose expression fails. -/
theorem ofTokens_of_error (hne : ts ≠ []) (hlen : ts.length ≤ maxTokens)
    (h : found (parseExpression 0 ts) = .error e) : ofTokens ts = .error e := by
  rw [ofTokens_eq hne hlen, h]
  rfl

/-- A failure of a call comes from the expression, and no limit on the length was met. -/
theorem found_of_ofTokens (h : ofTokens ts = .error e) (he : e.isAboutCall = true) :
    found (parseExpression 0 ts) = .error e := by
  by_cases hne : ts = []
  · subst hne
    cases h
    cases he
  by_cases hlen : ts.length ≤ maxTokens
  · rw [ofTokens_eq hne hlen] at h
    cases hfound : found (parseExpression 0 ts) with
    | error e' =>
      rw [hfound] at h
      cases h
      rfl
    | ok p =>
      rw [hfound] at h
      simp only [Except.bind] at h
      split at h
      · cases h
      · cases h
        cases he
  · rw [ofTokens, if_neg (by simpa using hne), if_pos (not_le.1 hlen)] at h
    cases h
    cases he

end Enclosed

/-! ## Whole texts -/

/-- Between parentheses the tokens are nested too deep. -/
def MeetsLimit (ts : List Token) : Prop :=
  found (parseExpression 1 (closedTokens ts)) = fault .tooDeep

/-- The outcome for a formula of this many tokens, some of them between parentheses: the length is
checked first, the nesting comes up while the tokens are read, and otherwise it is the failure. -/
structure Reports (e : Failure) (ts : List Token) (count : ℕ) (outcome : Except Failure Formula) :
    Prop where
  tooLong : maxTokens < count → outcome = fault .tooLong
  tooDeep : count ≤ maxTokens → MeetsLimit ts → outcome = fault .tooDeep
  failure : count ≤ maxTokens → ¬MeetsLimit ts → outcome = .error e

section Reports

variable {ts : List Token} {e : Failure}

/-- What the contents of the first parentheses report, the whole list of tokens reports. -/
theorem reports_ofTokens (front : List Token) (hfound : found (parseExpression 0 ts) = .error e)
    (he : e.isAboutCall = true)
    (hfront : ∀ e', found (parseArguments 1 (closedTokens ts)) = .error e' →
      found (parseExpression 0 (front ++ closedTokens ts)) = .error e') :
    Reports e ts (front.length + ts.length + 1) (ofTokens (front ++ closedTokens ts)) := by
  have hts := exists_cons_of_isAboutCall hfound he
  have hne : front ++ closedTokens ts ≠ [] := by simp [closedTokens]
  have hlength : (front ++ closedTokens ts).length = front.length + ts.length + 1 := by
    simp [closedTokens, Nat.add_assoc]
  have hinside : ∀ e', front.length + ts.length + 1 ≤ maxTokens →
      found (parseExpression 1 (closedTokens ts)) = .error e' →
      ofTokens (front ++ closedTokens ts) = .error e' := by
    intro e' hlen h
    exact ofTokens_of_error hne (hlength.trans_le hlen) (hfront e' (found_arguments_closed hts h))
  constructor
  · intro hlen
    rw [ofTokens, if_neg (by simpa using hne), if_pos (hlength ▸ hlen)]
  · intro hlen hmeets
    exact hinside _ hlen hmeets
  · intro hlen hmeets
    rcases (continues_expression 0 1 ts).failure e hfound he with h | h
    · exact hinside e hlen h
    · exact absurd h.1 hmeets

theorem reports_call (name : Text) (hfound : found (parseExpression 0 ts) = .error e)
    (he : e.isAboutCall = true) :
    Reports e ts (ts.length + 3)
      (ofTokens (.word name :: .symbol .openParen :: closedTokens ts)) := by
  have hreports := reports_ofTokens [.word name, .symbol .openParen] hfound he ?_
  · rwa [List.length_cons, List.length_singleton, Nat.add_comm _ ts.length] at hreports
  · intro e' h
    have hprimary : found (parsePrimary 1 (.word name :: .symbol .openParen :: closedTokens ts)) =
        .error e' := by
      rw [found_parsePrimary_call, h]
      rfl
    exact found_expression_of_primary rfl hprimary

theorem reports_group (hfound : found (parseExpression 0 ts) = .error e)
    (he : e.isAboutCall = true) :
    Reports e ts (ts.length + 2) (ofTokens (.symbol .openParen :: closedTokens ts)) := by
  have hreports := reports_ofTokens [.symbol .openParen] hfound he ?_
  · rwa [List.length_singleton, Nat.add_comm _ ts.length] at hreports
  · intro e' h
    have hprimary : found (parsePrimary 1 (.symbol .openParen :: closedTokens ts)) =
        .error e' := by
      rw [found_parsePrimary_group, h]
      rfl
    exact found_expression_of_primary rfl hprimary

end Reports

/-- If a call in a text is at fault, the same failure is reported for the text in parentheses and
for any call with the text as its argument, whatever the function; unless the longer formula has too
many tokens, or is nested too deep before the call is read. It is nested too deep only if the text
has at least 255 opening parentheses and exponents. -/
theorem ofText_innermost {text name : Text} {e : Failure} (h : ofText text = .error e)
    (he : e.isAboutCall = true) (hname : Token.IsIdentifier name) :
    ∃ ts, Token.ofText text = .ok ts ∧
      Reports e ts (ts.length + 3) (ofText (name ++ '(' :: (text ++ [')']))) ∧
      Reports e ts (ts.length + 2) (ofText ('(' :: (text ++ [')']))) ∧
      (MeetsLimit ts → 255 ≤ openings ts) := by
  rcases Token.ofTextFrom_cases [] text with ⟨ts, hts, -⟩ | ⟨_, excerpt, _, _, hillegal, -, -⟩
  · rw [← Token.ofText, List.reverse_nil, List.nil_append] at hts
    have hofTokens : ofTokens ts = .error e := by rwa [ofText, hts] at h
    have hfound := found_of_ofTokens hofTokens he
    have hcall : Token.ofText (name ++ '(' :: (text ++ [')'])) =
        .ok (.word (name.map Char.toLower) :: .symbol .openParen :: closedTokens ts) :=
      Token.ofText_called hname hts
    have hgroup : Token.ofText ('(' :: (text ++ [')'])) =
        .ok (.symbol .openParen :: closedTokens ts) := Token.ofTextFrom_enclosed hts []
    refine ⟨ts, hts, ?_, ?_, ?_⟩
    · rw [ofText, hcall]
      exact reports_call _ hfound he
    · rw [ofText, hgroup]
      exact reports_group hfound he
    · intro hmeets
      rcases (continues_expression 0 1 ts).failure e hfound he with hsame | ⟨-, hlevels⟩
      · rw [hmeets] at hsame
        cases hsame
        cases he
      · have hmax : maxDepth = 256 := rfl
        omega
  · rw [ofText, Token.ofText, hillegal] at h
    cases h
    cases he

/-- A call of `pow` with one argument, inside a call of what is no function. -/
theorem ofText_innermost_pow :
    ofText "pow(1)".toList = .error (.badArity "pow".toList .two) ∧
      Token.IsIdentifier "Foo".toList ∧
      ofText "Foo(pow(1))".toList = .error (.badArity "pow".toList .two) ∧
      ofText "(pow(1))".toList = .error (.badArity "pow".toList .two) := by
  have htokens : Token.ofText "pow(1)".toList =
      .ok [.word "pow".toList, .symbol .openParen, .number .one, .symbol .closeParen] := by
    decide +kernel
  have hargs : found (parseArguments 1 [.number .one, .symbol .closeParen]) =
      .ok ([.number .one], []) :=
    (found_parseArguments rfl).trans
      (Grammar.Arguments.found_tokens 1 [] (.last (.ofOperand (.mk [] (.plain (.number .one))))))
  have hprimary : found (parsePrimary 1
      [.word "pow".toList, .symbol .openParen, .number .one, .symbol .closeParen]) =
      .error (.badArity "pow".toList .two) := by
    rw [found_parsePrimary_call, hargs]
    rfl
  have hpow : ofText "pow(1)".toList = .error (.badArity "pow".toList .two) := by
    rw [ofText, htokens]
    exact ofTokens_of_error (List.cons_ne_nil _ _) (by decide)
      (found_expression_of_primary rfl hprimary)
  have hname : Token.IsIdentifier "Foo".toList :=
    ⟨⟨'F', ['o', 'o'], rfl, rfl⟩, List.all_eq_true.1 (by decide)⟩
  obtain ⟨ts, hts, hcall, hgroup, hlimit⟩ := ofText_innermost hpow rfl hname
  rw [htokens] at hts
  cases hts
  have hmeets : ¬MeetsLimit
      [.word "pow".toList, .symbol .openParen, .number .one, .symbol .closeParen] :=
    fun h => absurd (hlimit h) (by decide)
  have hcalled : "Foo".toList ++ '(' :: ("pow(1)".toList ++ [')']) = "Foo(pow(1))".toList := by
    decide
  have hgrouped : '(' :: ("pow(1)".toList ++ [')']) = "(pow(1))".toList := by decide
  rw [hcalled] at hcall
  rw [hgrouped] at hgroup
  exact ⟨hpow, hname, hcall.failure (by decide) hmeets, hgroup.failure (by decide) hmeets⟩

end Formula

end RadixCalc
