import RadixCalc.Formula.Parser

/-!
# What the readers of formulas find

The readers of `RadixCalc.Formula.Parser` return, beside what they read, a proof that the tokens
behind it are fewer. This file forgets that proof once, and restates every reader as an equation
about what it finds: `found r` is the outcome of a reader as a value and the tokens behind it. All
theorems about the readers start from these equations, and none of them opens a reader again.

* `found_parseExpression`, `found_parseChain`, ..., `found_parseItems` are the equations.
* `found_parsePrimary_ok` says what a primary can be.
* `ofTokens_eq` is the reading of a whole list of tokens, `ofText_eq_ok_iff` that of a text.
-/

namespace RadixCalc.Formula

/-! ## Outcomes -/

/-- What a reader found, without the bound on the tokens behind it. -/
def found {α : Type} {bound : Nat} :
    Except Failure (Parsed α bound) → Except Failure (α × List Token)
  | .error e => .error e
  | .ok p => .ok (p.value, p.rest)

/-- The tokens behind a symbol, where that symbol comes first. -/
def behind? (s : Symbol) : List Token → Option (List Token)
  | [] => none
  | t :: ts => if t = .symbol s then some ts else none

/-- The fault of what comes first: a misplaced token, or the given fault at the end. -/
def unexpected (ts : List Token) (atEnd : FormulaFault) : FormulaFault :=
  match ts with
  | [] => atEnd
  | t :: _ => .misplaced [t]

/-- The bound that a reader proves is not lost with its proof. -/
theorem length_lt_of_found {α : Type} {bound : Nat} {r : Except Failure (Parsed α bound)}
    {v : α} {rest : List Token} (h : found r = .ok (v, rest)) : rest.length < bound := by
  cases r with
  | error e => cases h
  | ok p =>
    cases h
    exact p.shorter

theorem bind_eq_ok {α β : Type} {x : Except Failure α} {f : α → Except Failure β} {b : β}
    (h : x.bind f = .ok b) : ∃ a, x = .ok a ∧ f a = .ok b := by
  cases x with
  | error e => cases h
  | ok a => exact ⟨a, rfl, h⟩

@[simp]
theorem behind?_self (s : Symbol) (ts : List Token) : behind? s (.symbol s :: ts) = some ts :=
  if_pos rfl

theorem behind?_eq_some {s : Symbol} {ts rest : List Token} (h : behind? s ts = some rest) :
    ts = .symbol s :: rest := by
  cases ts with
  | nil => cases h
  | cons t ts =>
    rw [behind?] at h
    split at h
    · next ht =>
      cases h
      rw [ht]
    · cases h

theorem length_lt_of_behind? {s : Symbol} {ts rest : List Token} (h : behind? s ts = some rest) :
    rest.length < ts.length := by
  rw [behind?_eq_some h]
  exact Nat.lt_succ_self _

theorem behind?_rest {α : Type} {bound : Nat} (p : Parsed α bound) (s : Symbol) :
    behind? s p.rest = (p.behind? s).map Subtype.val := by
  obtain ⟨v, rest, h⟩ := p
  cases rest with
  | nil => rfl
  | cons t rest => by_cases ht : t = .symbol s <;> simp [behind?, Parsed.behind?, ht]

/-! ## Expressions and chains -/

/-- An expression is a chain, or a chain, `?`, and two expressions with `:` between them. -/
theorem found_parseExpression (depth : Nat) (ts : List Token) :
    found (parseExpression depth ts) =
      (found (parseChain 1 depth ts)).bind fun (c, rest) =>
        match behind? .question rest with
        | none => .ok (c, rest)
        | some ts₁ =>
          (found (parseExpression depth ts₁)).bind fun (a, rest) =>
            match behind? .colon rest with
            | none => fault (unexpected rest .unfinished)
            | some ts₂ =>
              (found (parseExpression depth ts₂)).bind fun (b, rest) =>
                .ok (.cond c a b, rest) := by
  rw [parseExpression]
  rcases parseChain 1 depth ts with e | c
  · rfl
  · simp only [found, Except.bind, behind?_rest]
    rcases c.behind? .question with _ | ⟨ts₁, h₁⟩
    · rfl
    · simp only [Option.map_some]
      rcases parseExpression depth ts₁ with e | a
      · rfl
      · simp only [behind?_rest]
        rcases a.behind? .colon with _ | ⟨ts₂, h₂⟩
        · rfl
        · simp only [Option.map_some]
          rcases parseExpression depth ts₂ with e | b <;> rfl

theorem found_parseChain (level depth : Nat) (ts : List Token) :
    found (parseChain level depth ts) =
      (found (parseOperand depth ts)).bind fun (left, rest) =>
        found (parseChainFrom level depth left rest) := by
  rw [parseChain]
  rcases parseOperand depth ts with e | ⟨left, ts₁, h₁⟩
  · rfl
  · simp only [found, Except.bind]
    rcases parseChainFrom level depth left ts₁ with e | p <;> rfl

theorem found_parseChainFrom_nil (level depth : Nat) (left : Formula) :
    found (parseChainFrom level depth left []) = .ok (left, []) := by
  rw [parseChainFrom]
  rfl

/-- A chain goes on with an operator of its level or a tighter one, and the right operand of that is
a chain one level tighter still. -/
theorem found_parseChainFrom_cons (level depth : Nat) (left : Formula) (t : Token)
    (ts : List Token) :
    found (parseChainFrom level depth left (t :: ts)) =
      match t.binary? with
      | none => .ok (left, t :: ts)
      | some (p, op) =>
        if p < level then .ok (left, t :: ts)
        else
          (found (parseChain (p + 1) depth ts)).bind fun (right, rest) =>
            found (parseChainFrom level depth (.binary op left right) rest) := by
  rw [parseChainFrom]
  rcases t.binary? with _ | ⟨p, op⟩
  · rfl
  · simp only
    split
    · rfl
    · rcases parseChain (p + 1) depth ts with e | ⟨right, ts₂, h₂⟩
      · rfl
      · simp only [found, Except.bind]
        rcases parseChainFrom level depth (.binary op left right) ts₂ with e | q <;> rfl

/-! ## Operands -/

/-- A level is entered where an operand begins, and only there. -/
theorem found_parseOperand (depth : Nat) (ts : List Token) :
    found (parseOperand depth ts) =
      if maxDepth ≤ depth then fault .tooDeep else found (parsePrefixed (depth + 1) ts) := by
  rw [parseOperand]
  split <;> rfl

theorem found_parsePrefixed_nil (depth : Nat) :
    found (parsePrefixed depth []) = fault .unfinished := by
  rw [parsePrefixed]
  rfl

theorem found_parsePrefixed_cons (depth : Nat) (t : Token) (ts : List Token) :
    found (parsePrefixed depth (t :: ts)) =
      match t.unary? with
      | none => found (parsePower depth (t :: ts))
      | some op =>
        (found (parsePrefixed depth ts)).bind fun (x, rest) => .ok (.unary op x, rest) := by
  rw [parsePrefixed]
  rcases t.unary? with _ | op
  · rfl
  · rcases parsePrefixed depth ts with e | p <;> rfl

/-- The exponent is an operand again, and may have its own operators in front. -/
theorem found_parsePower (depth : Nat) (ts : List Token) :
    found (parsePower depth ts) =
      (found (parsePrimary depth ts)).bind fun (base, rest) =>
        match behind? .caret rest with
        | none => .ok (base, rest)
        | some ts₁ =>
          (found (parseOperand depth ts₁)).bind fun (exponent, rest) =>
            .ok (.binary .pow base exponent, rest) := by
  rw [parsePower]
  rcases parsePrimary depth ts with e | base
  · rfl
  · simp only [found, Except.bind, behind?_rest]
    rcases base.behind? .caret with _ | ⟨ts₁, h₁⟩
    · rfl
    · simp only [Option.map_some]
      rcases parseOperand depth ts₁ with e | x <;> rfl

/-! ## Primaries and arguments -/

theorem found_parsePrimary_number (depth : Nat) (v : Double) (ts : List Token) :
    found (parsePrimary depth (.number v :: ts)) = .ok (.number v, ts) := by
  rw [parsePrimary]
  rfl

theorem found_parsePrimary_placeholder (depth : Nat) (name : Text) (ts : List Token) :
    found (parsePrimary depth (.placeholder name :: ts)) = .ok (.var name, ts) := by
  rw [parsePrimary]
  rfl

/-- Whether a call is allowed is asked after its arguments have been read. -/
theorem found_parsePrimary_call (depth : Nat) (name : Text) (ts : List Token) :
    found (parsePrimary depth (.word name :: .symbol .openParen :: ts)) =
      (found (parseArguments depth ts)).bind fun (args, rest) =>
        match Builtin.ofName? name with
        | none => .error (.unsupportedFunction name)
        | some f =>
          if f.arity.accepts args.length then .ok (.call f args, rest)
          else .error (.badArity name f.arity) := by
  rw [parsePrimary]
  rcases parseArguments depth ts with e | ⟨args, rest, h⟩
  · rfl
  · simp only [found, Except.bind]
    rcases Builtin.ofName? name with _ | f
    · rfl
    · by_cases ha : f.arity.accepts args.length = true
      · simp only [if_pos ha]
      · simp only [if_neg ha]

/-- A group is read as arguments are, and refused unless there is exactly one. -/
theorem found_parsePrimary_group (depth : Nat) (ts : List Token) :
    found (parsePrimary depth (.symbol .openParen :: ts)) =
      (found (parseArguments depth ts)).bind fun (args, rest) =>
        match args with
        | [e] => .ok (e, rest)
        | _ => fault (.misplaced (.symbol .openParen :: ts.take (ts.length - rest.length))) := by
  rw [parsePrimary]
  rcases parseArguments depth ts with e | ⟨args, rest, h⟩
  · rfl
  · rcases args with _ | ⟨x, _ | ⟨y, zs⟩⟩ <;> rfl

/-- A name without an opening parenthesis is no primary. -/
theorem found_parsePrimary_word {depth : Nat} {name : Text} {ts : List Token}
    (h : behind? .openParen ts = none) :
    found (parsePrimary depth (.word name :: ts)) = fault (.misplaced [.word name]) := by
  rw [parsePrimary]
  · rfl
  · simp
  · simp
  · rintro _ ts₁ _ rfl
    simp at h
  · simp

/-- Of the symbols only an opening parenthesis begins a primary. -/
theorem found_parsePrimary_symbol {depth : Nat} {s : Symbol} {ts : List Token}
    (h : s ≠ .openParen) :
    found (parsePrimary depth (.symbol s :: ts)) = fault (.misplaced [.symbol s]) := by
  rw [parsePrimary]
  · rfl
  · simp
  · simp
  · simp
  · simpa using h

/-- What is read as a primary is a number, a variable, an allowed call, or one expression in
parentheses. -/
theorem found_parsePrimary_ok {depth : Nat} {ts rest : List Token} {e : Formula}
    (h : found (parsePrimary depth ts) = .ok (e, rest)) :
    (∃ v, ts = .number v :: rest ∧ e = .number v) ∨
    (∃ name, ts = .placeholder name :: rest ∧ e = .var name) ∨
    (∃ name args f ts₁, ts = .word name :: .symbol .openParen :: ts₁ ∧
      found (parseArguments depth ts₁) = .ok (args, rest) ∧ Builtin.ofName? name = some f ∧
      f.arity.accepts args.length = true ∧ e = .call f args) ∨
    (∃ ts₁, ts = .symbol .openParen :: ts₁ ∧
      found (parseArguments depth ts₁) = .ok ([e], rest)) := by
  cases ts with
  | nil =>
    rw [parsePrimary] at h
    cases h
  | cons t ts =>
    cases t with
    | number v =>
      rw [found_parsePrimary_number] at h
      cases h
      exact .inl ⟨v, rfl, rfl⟩
    | placeholder name =>
      rw [found_parsePrimary_placeholder] at h
      cases h
      exact .inr (.inl ⟨name, rfl, rfl⟩)
    | word name =>
      cases hopen : behind? .openParen ts with
      | none =>
        rw [found_parsePrimary_word hopen] at h
        cases h
      | some ts₁ =>
        obtain rfl := behind?_eq_some hopen
        rw [found_parsePrimary_call] at h
        obtain ⟨⟨args, rest'⟩, hargs, h⟩ := bind_eq_ok h
        simp only at h
        split at h
        · cases h
        · next f hf =>
          split at h
          · next ha =>
            cases h
            exact .inr (.inr (.inl ⟨name, args, f, ts₁, rfl, hargs, hf, ha, rfl⟩))
          · cases h
    | symbol s =>
      by_cases hs : s = .openParen
      · subst hs
        rw [found_parsePrimary_group] at h
        obtain ⟨⟨args, rest'⟩, hargs, h⟩ := bind_eq_ok h
        simp only at h
        split at h
        · cases h
          exact .inr (.inr (.inr ⟨ts, rfl, hargs⟩))
        · cases h
      · rw [found_parsePrimary_symbol hs] at h
        cases h

theorem found_parseArguments_close (depth : Nat) (ts : List Token) :
    found (parseArguments depth (.symbol .closeParen :: ts)) = .ok ([], ts) := by
  rw [parseArguments]
  rfl

theorem found_parseArguments {depth : Nat} {ts : List Token} (h : behind? .closeParen ts = none) :
    found (parseArguments depth ts) = found (parseItems depth ts) := by
  rw [parseArguments]
  rintro rest rfl
  simp at h

theorem found_parseItems (depth : Nat) (ts : List Token) :
    found (parseItems depth ts) =
      (found (parseExpression depth ts)).bind fun (x, rest) =>
        match behind? .comma rest with
        | some ts₁ =>
          (found (parseItems depth ts₁)).bind fun (xs, rest) => .ok (x :: xs, rest)
        | none =>
          match behind? .closeParen rest with
          | some rest => .ok ([x], rest)
          | none => fault (unexpected rest .unclosed) := by
  rw [parseItems]
  rcases parseExpression depth ts with e | x
  · rfl
  · simp only [found, Except.bind, behind?_rest]
    rcases x.behind? .comma with _ | ⟨ts₁, h₁⟩
    · rcases x.behind? .closeParen with _ | ⟨ts₁, h₁⟩ <;> rfl
    · simp only [Option.map_some]
      rcases parseItems depth ts₁ with e | xs <;> rfl

/-! ## Whole lists of tokens -/

/-- A list that may be read is an expression to its end. -/
theorem ofTokens_eq {ts : List Token} (hne : ts ≠ []) (hlen : ts.length ≤ maxTokens) :
    ofTokens ts = (found (parseExpression 0 ts)).bind fun (e, rest) =>
      if rest.isEmpty then .ok e else fault (.misplaced rest) := by
  rw [ofTokens, if_neg (by simpa using hne), if_neg (by omega)]
  rcases parseExpression 0 ts with e | p <;> rfl

/-- Only a list that is neither empty nor too long is read at all. -/
theorem bounds_of_ofTokens {ts : List Token} {e : Formula} (h : ofTokens ts = .ok e) :
    ts ≠ [] ∧ ts.length ≤ maxTokens := by
  unfold ofTokens at h
  split at h
  · cases h
  · next hne =>
    split at h
    · cases h
    · next hlen => exact ⟨by simpa using hne, Nat.not_lt.1 hlen⟩

/-- A text is read as a formula where it is read as tokens and these are. -/
theorem ofText_eq_ok_iff {text : Text} {e : Formula} :
    ofText text = .ok e ↔ ∃ ts, Token.ofText text = .ok ts ∧ ofTokens ts = .ok e := by
  unfold ofText
  cases Token.ofText text <;> simp

end RadixCalc.Formula
