import RadixCalc.Proofs.Formula.Cursor

/-!
# Readers make progress

The readers that move a cursor end, wherever they are called: each of them takes a token or hands
the tokens on to a reader that stands lower in the grammar, so no more calls are inside one another
than nine times the number of tokens ahead and the place of the reader among the nine. They find
what the readers of `RadixCalc.Formula.Parser` find, move the cursor forward when they succeed, and
give back the depth that they were given. So the depth counts what is open at a point of the
formula, and a long formula is not deep for being long.

* `follows_expression` and its companions compare the two kinds of readers, in one mutual induction
  on the number of calls.
* `ofTokens_ne_tooDeep` counts the tokens that open a level.
* `readers_progress` is the result.
-/

namespace RadixCalc.Formula

/-! ## Outcomes of the readers -/

theorem found_parsePower_nil (depth : ℕ) : found (parsePower depth []) = fault .unfinished := by
  rw [found_parsePower, parsePrimary]
  rfl

/-- A name is a call where a parenthesis follows it, and nothing otherwise. -/
theorem found_parsePrimary_word_eq (depth : ℕ) (name : Text) (ts : List Token) :
    found (parsePrimary depth (.word name :: ts)) =
      match behind? .openParen ts with
      | none => fault (.misplaced [.word name])
      | some ts₁ =>
        (found (parseArguments depth ts₁)).bind fun (args, rest) =>
          match Builtin.ofName? name with
          | none => .error (.unsupportedFunction name)
          | some f =>
            if f.arity.accepts args.length then .ok (.call f args, rest)
            else .error (.badArity name f.arity) := by
  cases hopen : behind? .openParen ts with
  | none => exact found_parsePrimary_word hopen
  | some ts₁ =>
    rw [behind?_eq_some hopen]
    exact found_parsePrimary_call depth name ts₁

theorem found_parseArguments_eq (depth : ℕ) (ts : List Token) :
    found (parseArguments depth ts) =
      match behind? .closeParen ts with
      | none => found (parseItems depth ts)
      | some rest => .ok ([], rest) := by
  cases hclose : behind? .closeParen ts with
  | none => exact found_parseArguments hclose
  | some rest =>
    rw [behind?_eq_some hclose]
    exact found_parseArguments_close depth rest

theorem bind_bind {α β γ : Type} (x : Except Failure α) (f : α → Except Failure β)
    (g : β → Except Failure γ) : (x.bind f).bind g = x.bind fun a => (f a).bind g := by
  cases x <;> rfl

/-! ## Runs of the readers -/

/-- The loop over the unary operators takes those that the operand begins with. -/
theorem exists_prefixes {n : ℕ} {c : Cursor} {ts : List Token} (hts : c.StandsAt ts)
    (hn : ts.length < n) (ops : List UnaryOp) :
    ∃ more rest c', Course.prefixes n ops c = some (.ok (ops ++ more), c') ∧
      c.Reaches c' rest ∧
      ∀ depth, found (parsePrefixed depth ts) =
        (found (parsePower depth rest)).bind fun (x, rest) => .ok (more.foldr .unary x, rest) := by
  induction ts generalizing n c ops with
  | nil =>
    obtain ⟨n, rfl⟩ : ∃ m, n = m + 1 := ⟨n - 1, by omega⟩
    have hnone : c.tokens[c.position]?.bind Token.unary? = none := by
      rw [hts.getElem?_position]
      rfl
    refine ⟨[], [], c, ?_, .refl hts, ?_⟩
    · rw [Course.prefixes_of_none hnone, List.append_nil]
    · intro depth
      rw [found_parsePrefixed_nil, found_parsePower_nil]
      rfl
  | cons t ts ih =>
    obtain ⟨n, rfl⟩ : ∃ m, n = m + 1 := ⟨n - 1, by omega⟩
    have hfirst : c.tokens[c.position]?.bind Token.unary? = t.unary? := by
      rw [hts.getElem?_position]
      rfl
    cases ht : t.unary? with
    | none =>
      rw [ht] at hfirst
      refine ⟨[], t :: ts, c, ?_, .refl hts, ?_⟩
      · rw [Course.prefixes_of_none hfirst, List.append_nil]
      · intro depth
        rw [found_parsePrefixed_cons, ht]
        cases found (parsePower depth (t :: ts)) <;> rfl
    | some op =>
      rw [ht] at hfirst
      have h := hts.reaches_advanced
      obtain ⟨more, rest, c', hrun, h', hfound⟩ :=
        ih h.standsAt (Nat.lt_of_succ_lt_succ hn) (ops ++ [op])
      refine ⟨op :: more, rest, c', ?_, h.trans h', ?_⟩
      · rw [Course.prefixes_of_some hfirst, hrun, List.append_assoc]
        rfl
      · intro depth
        rw [found_parsePrefixed_cons, ht]
        simp only [hfound]
        cases found (parsePower depth rest) <;> rfl

-- The induction is on the number of calls. A reader needs nine calls for every token ahead and its
-- place among the nine readers: one that hands its tokens on goes to a smaller place, and one that
-- takes a token first may go to any place.
mutual

/-- The measure is that of the readers on tokens. The bound on levels says what the tokens ahead can
still open, so that a failure for depth is told apart. -/
theorem follows_expression (n : ℕ) {c : Cursor} {depth levels : ℕ} {ts : List Token}
    (hts : c.StandsAt ts) (hdepth : c.depth = depth) (hlevels : depth + openings ts ≤ levels)
    (hn : 9 * ts.length + 6 < n) :
    Follows levels c (found (parseExpression depth ts)) (Course.expression n c) := by
  match n with
  | 0 => omega
  | n + 1 =>
    rw [Course.expression, found_parseExpression]
    refine (follows_chain n 1 hts hdepth hlevels (by omega)).bind fun v ts₁ c₁ hv h₁ => ?_
    have hlt₁ := length_lt_of_found hv
    have hopen₁ := h₁.openings_le hts
    refine .ifNext h₁.standsAt (fun ts₂ hq h₂ => ?_) (fun _ => .of_pure h₁.standsAt v)
    have hlt₂ := length_lt_of_behind? hq
    have hopen₂ := openings_behind? hq
    have hdepth₂ := h₂.depth.trans (h₁.depth.trans hdepth)
    refine (follows_expression n h₂.standsAt hdepth₂ (by omega) (by omega)).bind
      fun a ts₃ c₃ ha h₃ => ?_
    have hlt₃ := length_lt_of_found ha
    have hopen₃ := h₃.openings_le h₂.standsAt
    refine .expect h₃.standsAt fun ts₄ c₄ hcol h₄ => ?_
    have hlt₄ := length_lt_of_behind? hcol
    have hopen₄ := openings_behind? hcol
    have hdepth₄ := h₄.depth.trans (h₃.depth.trans hdepth₂)
    exact (follows_expression n h₄.standsAt hdepth₄ (by omega) (by omega)).map

theorem follows_chain (n level : ℕ) {c : Cursor} {depth levels : ℕ} {ts : List Token}
    (hts : c.StandsAt ts) (hdepth : c.depth = depth) (hlevels : depth + openings ts ≤ levels)
    (hn : 9 * ts.length + 5 < n) :
    Follows levels c (found (parseChain level depth ts)) (Course.chain n level c) := by
  match n with
  | 0 => omega
  | n + 1 =>
    rw [Course.chain, found_parseChain]
    refine (follows_operand n hts hdepth hlevels (by omega)).bind fun left ts₁ c₁ hleft h₁ => ?_
    have hlt₁ := length_lt_of_found hleft
    have hopen₁ := h₁.openings_le hts
    exact follows_chainFrom n level left h₁.standsAt (h₁.depth.trans hdepth) (by omega) (by omega)

theorem follows_chainFrom (n level : ℕ) (left : Formula) {c : Cursor} {depth levels : ℕ}
    {ts : List Token} (hts : c.StandsAt ts) (hdepth : c.depth = depth)
    (hlevels : depth + openings ts ≤ levels) (hn : 9 * ts.length < n) :
    Follows levels c (found (parseChainFrom level depth left ts))
      (Course.chainFrom n level left c) := by
  match n with
  | 0 => omega
  | n + 1 =>
    match ts with
    | [] =>
      have hnone : c.tokens[c.position]?.bind Token.binary? = none := by
        rw [hts.getElem?_position]
        rfl
      rw [found_parseChainFrom_nil, Course.chainFrom_of_none hnone]
      exact .of_pure hts left
    | t :: ts₁ =>
      have hfirst : c.tokens[c.position]?.bind Token.binary? = t.binary? := by
        rw [hts.getElem?_position]
        rfl
      rw [found_parseChainFrom_cons]
      cases ht : t.binary? with
      | none =>
        rw [Course.chainFrom_of_none (hfirst.trans ht)]
        exact .of_pure hts left
      | some q =>
        obtain ⟨p, op⟩ := q
        rw [ht] at hfirst
        simp only
        split
        · next hp =>
          rw [Course.chainFrom_of_lt hfirst hp]
          exact .of_pure hts left
        · next hp =>
          have h := hts.reaches_advanced
          have hopen := openings_cons_le t ts₁
          have hdepth' := h.depth.trans hdepth
          rw [List.length_cons] at hn
          rw [Course.chainFrom_of_le hfirst hp]
          refine .of_reaches h ((follows_chain n (p + 1) h.standsAt hdepth' (by omega)
            (by omega)).bind fun right ts₂ c₂ hright h₂ => ?_)
          have hlt₂ := length_lt_of_found hright
          have hopen₂ := h₂.openings_le h.standsAt
          have hrest : Follows levels c₂ (found (parseChainFrom level depth _ ts₂)) _ :=
            follows_chainFrom n level (.binary op left right) h₂.standsAt
              (h₂.depth.trans hdepth') (by omega) (by omega)
          exact hrest

theorem follows_operand (n : ℕ) {c : Cursor} {depth levels : ℕ} {ts : List Token}
    (hts : c.StandsAt ts) (hdepth : c.depth = depth) (hlevels : depth + openings ts ≤ levels)
    (hn : 9 * ts.length + 4 < n) :
    Follows levels c (found (parseOperand depth ts)) (Course.operand n c) := by
  match n with
  | 0 => omega
  | n + 1 =>
    rw [Course.operand, found_parseOperand, ← hdepth]
    refine .level (fun hdeep => by omega) (fun _ => ?_)
    have hentered : c.entered.StandsAt ts := ⟨hts.inRange, hts.ahead⟩
    obtain ⟨ops, rest, c', hrun, h, hfound⟩ := exists_prefixes hentered (n := n) (by omega) []
    have hopen := h.openings_le hentered
    have hlen := h.length_le hentered
    have hdepth' : c'.depth = c.depth + 1 := h.depth
    have hpower : Follows levels c' _ (Course.power n c') :=
      follows_power n h.standsAt hdepth' (by omega) (by omega)
    rw [hfound, Course.bind_apply, hrun]
    exact .of_reaches h (hpower.map (f := fun x => ops.foldr .unary x))

theorem follows_power (n : ℕ) {c : Cursor} {depth levels : ℕ} {ts : List Token}
    (hts : c.StandsAt ts) (hdepth : c.depth = depth) (hlevels : depth + openings ts ≤ levels + 1)
    (hn : 9 * ts.length + 2 < n) :
    Follows levels c (found (parsePower depth ts)) (Course.power n c) := by
  match n with
  | 0 => omega
  | n + 1 =>
    rw [Course.power, found_parsePower]
    refine (follows_primary n hts hdepth hlevels (by omega)).bind fun base ts₁ c₁ hbase h₁ => ?_
    have hlt₁ := length_lt_of_found hbase
    have hopen₁ := h₁.openings_le hts
    refine .ifNext h₁.standsAt (fun ts₂ hq h₂ => ?_) (fun _ => .of_pure h₁.standsAt base)
    have hlt₂ := length_lt_of_behind? hq
    have hopen₂ := openings_caret hq
    have hdepth₂ := h₂.depth.trans (h₁.depth.trans hdepth)
    exact (follows_operand n h₂.standsAt hdepth₂ (by omega) (by omega)).map

theorem follows_primary (n : ℕ) {c : Cursor} {depth levels : ℕ} {ts : List Token}
    (hts : c.StandsAt ts) (hdepth : c.depth = depth) (hlevels : depth + openings ts ≤ levels + 1)
    (hn : 9 * ts.length + 1 < n) :
    Follows levels c (found (parsePrimary depth ts)) (Course.primary n c) := by
  match n with
  | 0 => omega
  | n + 1 =>
    rw [Course.primary]
    refine .position (.next hts ?_ ?_)
    · rintro t ts₁ rfl h₁
      rw [List.length_cons] at hn
      have hdepth₁ := h₁.depth.trans hdepth
      cases t with
      | number v =>
        rw [found_parsePrimary_number]
        exact .of_pure h₁.standsAt _
      | placeholder name =>
        rw [found_parsePrimary_placeholder]
        exact .of_pure h₁.standsAt _
      | word name =>
        rw [found_parsePrimary_word_eq]
        refine .ifNext h₁.standsAt (fun ts₂ hopen h₂ => ?_) (fun _ => .of_fault (by simp))
        have hlt₂ := length_lt_of_behind? hopen
        have hlevel := openings_cons_le (.word name) ts₁
        have hlevel₂ : openings ts₁ = openings ts₂ + 1 := by
          rw [behind?_eq_some hopen, openings_openParen]
        refine (follows_arguments n h₂.standsAt (h₂.depth.trans hdepth₁) (by omega)
          (by omega)).bind fun args rest c' _ h' => ?_
        cases Builtin.ofName? name with
        | none => exact .failure rfl rfl (by simp)
        | some f =>
          simp only
          split
          · exact .of_pure h'.standsAt _
          · exact .failure rfl rfl (by simp)
      | symbol s =>
        by_cases hs : s = .openParen
        · subst hs
          have hlevel := openings_openParen ts₁
          rw [found_parsePrimary_group]
          refine (follows_arguments n h₁.standsAt hdepth₁ (by omega) (by omega)).bind
            fun args rest c' hargs h' => ?_
          have hlt := length_lt_of_found hargs
          have htaken : (c'.tokens.take c'.position).drop c.position =
              .symbol .openParen :: ts₁.take (ts₁.length - rest.length) := by
            rw [(h₁.trans h').taken_eq hts, List.length_cons, Nat.succ_sub hlt.le,
              List.take_succ_cons]
          have hfault : Follows levels c' (fault (.misplaced _))
              ((Course.taken c.position >>= fun ts => Course.fail (.badFormula (.misplaced ts)) :
                Course Formula) c') := .of_fault (by simp)
          rw [htaken] at hfault
          match args with
          | [] => exact hfault
          | [e] => exact .of_pure h'.standsAt e
          | _ :: _ :: _ => exact hfault
        · rw [found_parsePrimary_symbol hs]
          cases s with
          | openParen => exact absurd rfl hs
          | _ => exact .of_fault (by simp)
    · rintro rfl
      rw [parsePrimary]
      exact .of_fault (by simp)

theorem follows_arguments (n : ℕ) {c : Cursor} {depth levels : ℕ} {ts : List Token}
    (hts : c.StandsAt ts) (hdepth : c.depth = depth) (hlevels : depth + openings ts ≤ levels)
    (hn : 9 * ts.length + 8 < n) :
    Follows levels c (found (parseArguments depth ts)) (Course.arguments n c) := by
  match n with
  | 0 => omega
  | n + 1 =>
    have hitems := follows_items n [] hts hdepth hlevels (by omega)
    rw [Course.arguments, found_parseArguments_eq]
    refine .ifNext hts (fun rest _ h => .of_pure h.standsAt []) (fun _ => ?_)
    cases hfound : found (parseItems depth ts) with
    | error e =>
      rw [hfound] at hitems
      exact hitems
    | ok p =>
      rw [hfound] at hitems
      exact hitems

/-- The loop over the arguments carries those it has read, in front of the ones it will read. -/
theorem follows_items (n : ℕ) (args : List Formula) {c : Cursor} {depth levels : ℕ}
    {ts : List Token} (hts : c.StandsAt ts) (hdepth : c.depth = depth)
    (hlevels : depth + openings ts ≤ levels) (hn : 9 * ts.length + 7 < n) :
    Follows levels c ((found (parseItems depth ts)).bind fun (xs, rest) => .ok (args ++ xs, rest))
      (Course.items n args c) := by
  match n with
  | 0 => omega
  | n + 1 =>
    rw [Course.items, found_parseItems, bind_bind]
    refine (follows_expression n hts hdepth hlevels (by omega)).bind fun x ts₁ c₁ hx h₁ => ?_
    have hlt₁ := length_lt_of_found hx
    have hopen₁ := h₁.openings_le hts
    refine .next h₁.standsAt ?_ ?_
    · rintro t ts₂ rfl h₂
      rw [List.length_cons] at hlt₁
      have hopen₂ := openings_cons_le t ts₂
      by_cases hcomma : t = .symbol .comma
      · subst hcomma
        have hmore : Follows levels c₁.advanced _ (Course.items n (args ++ [x]) c₁.advanced) :=
          follows_items n (args ++ [x]) h₂.standsAt (h₂.depth.trans (h₁.depth.trans hdepth))
            (by omega) (by omega)
        have houtcome : ((found (parseItems depth ts₂)).bind fun (xs, rest) =>
            .ok (args ++ [x] ++ xs, rest)) =
            ((found (parseItems depth ts₂)).bind fun (xs, rest) => .ok (x :: xs, rest)).bind
              fun (xs, rest) => .ok (args ++ xs, rest) := by
          cases found (parseItems depth ts₂) with
          | error e => rfl
          | ok p => simp [Except.bind]
        rw [houtcome] at hmore
        exact hmore
      by_cases hclose : t = .symbol .closeParen
      · subst hclose
        exact .of_pure h₂.standsAt (args ++ [x])
      · have hneither : behind? .comma (t :: ts₂) = none ∧ behind? .closeParen (t :: ts₂) = none :=
          ⟨if_neg hcomma, if_neg hclose⟩
        simp only [hneither]
        exact .of_fault (by simp [unexpected])
    · rintro rfl
      exact .of_fault (by simp [unexpected])

end

/-! ## Progress -/

section Ends

variable {α : Type}

/-- How a run from a cursor ends, beside what a reader finds in the tokens ahead. With a value it
stands further on than before, though not behind the last token, and as deep as before. With a
failure it is as deep as before as well, unless the nesting was too deep; this is the level that
could not be entered, and there have to be tokens enough to reach it. -/
structure Ends (c : Cursor) (finds : Except Failure (α × List Token)) (outcome : Except Failure α)
    (c' : Cursor) : Prop where
  tokens : c'.tokens = c.tokens
  value : ∀ v, outcome = .ok v → c.position < c'.position ∧ c'.position ≤ c.tokens.length ∧
    c'.depth = c.depth ∧ finds = .ok (v, c.tokens.drop c'.position)
  failure : ∀ e, outcome = .error e → finds = .error e ∧
    c'.depth = if e = .badFormula .tooDeep then c.depth + 1 else c.depth
  tooDeep : outcome = fault .tooDeep →
    maxDepth ≤ c.depth + openings (c.tokens.drop c.position)

/-- From every cursor in range, at whatever depth, the reader ends, and no more calls are inside one
another than the tokens ahead allow. -/
def Progresses (read : ℕ → Course α)
    (parse : ℕ → List Token → Except Failure (α × List Token)) : Prop :=
  ∀ c : Cursor, c.position ≤ c.tokens.length →
    ∀ n, 9 * (c.tokens.length - c.position) + 8 < n →
      ∃ outcome c', read n c = some (outcome, c') ∧
        Ends c (parse c.depth (c.tokens.drop c.position)) outcome c'

/-- A reader that follows one of the readers on tokens makes progress. -/
theorem progresses_of_follows {read : ℕ → Course α}
    {parse : ℕ → List Token → Except Failure (α × List Token)}
    (hlt : ∀ depth ts v rest, parse depth ts = .ok (v, rest) → rest.length < ts.length)
    (hfollows : ∀ n c ts, c.StandsAt ts → 9 * ts.length + 8 < n →
      Follows (c.depth + openings ts) c (parse c.depth ts) (read n c)) :
    Progresses read parse := by
  intro c hrange n hn
  have hts : c.StandsAt (c.tokens.drop c.position) := ⟨hrange, rfl⟩
  rw [← List.length_drop] at hn
  have hrun := hfollows n c _ hts hn
  generalize hx : parse c.depth (c.tokens.drop c.position) = x at hrun ⊢
  generalize read n c = run at hrun ⊢
  cases hrun with
  | @value v rest c' h =>
    refine ⟨.ok v, c', rfl, h.tokens, ?_, nofun, nofun⟩
    rintro _ ⟨⟩
    have hinRange := h.standsAt.inRange
    have hahead := h.standsAt.ahead
    rw [h.tokens] at hinRange hahead
    exact ⟨h.position_lt hts (hlt _ _ _ _ hx), hinRange, h.depth, by rw [hahead]⟩
  | @failure e c' htokens hdepth he =>
    refine ⟨.error e, c', rfl, htokens, nofun, ?_, ?_⟩
    · rintro _ ⟨⟩
      rw [if_neg he]
      exact ⟨rfl, hdepth⟩
    · rintro ⟨⟩
      exact absurd rfl he
  | @tooDeep c' htokens hdepth hlevels =>
    refine ⟨.error (.badFormula .tooDeep), c', rfl, htokens, nofun, ?_, fun _ => hlevels⟩
    rintro _ ⟨⟩
    rw [if_pos rfl]
    exact ⟨rfl, hdepth⟩

end Ends

/-- Tokens that open fewer levels than are allowed are never nested too deep, however many they
are. -/
theorem ofTokens_ne_tooDeep {ts : List Token} (h : openings ts < maxDepth) :
    ofTokens ts ≠ fault .tooDeep := by
  have hrun : Follows (0 + openings ts) ⟨ts, 0, 0⟩ (found (parseExpression 0 ts)) _ :=
    follows_expression (9 * ts.length + 7) ⟨Nat.zero_le _, rfl⟩ rfl le_rfl (Nat.lt_succ_self _)
  intro hdeep
  by_cases hne : ts = []
  · subst hne
    cases hdeep
  by_cases hlen : ts.length ≤ maxTokens
  · rw [ofTokens_eq hne hlen] at hdeep
    generalize found (parseExpression 0 ts) = x at hrun hdeep
    generalize Course.expression _ _ = run at hrun
    cases hrun with
    | value _ =>
      simp only [Except.bind] at hdeep
      split at hdeep
      · cases hdeep
      · cases hdeep
    | failure _ _ he =>
      cases hdeep
      exact he rfl
    | tooDeep _ _ hlevels => omega
  · rw [ofTokens, if_neg (by simpa using hne), if_pos (not_le.1 hlen)] at hdeep
    cases hdeep

/-- All readers make progress, and give back the depth that they were given: those of expressions,
of chains of every level, of operands, powers, primaries and arguments. So a formula of any allowed
length is read as long as no point of it is nested too deep, and tokens that open fewer levels than
are allowed are never nested too deep. -/
theorem readers_progress :
    Progresses Course.expression (fun depth ts => found (parseExpression depth ts)) ∧
    (∀ level, Progresses (fun n => Course.chain n level)
      fun depth ts => found (parseChain level depth ts)) ∧
    Progresses Course.operand (fun depth ts => found (parseOperand depth ts)) ∧
    Progresses Course.power (fun depth ts => found (parsePower depth ts)) ∧
    Progresses Course.primary (fun depth ts => found (parsePrimary depth ts)) ∧
    Progresses Course.arguments (fun depth ts => found (parseArguments depth ts)) ∧
    (∀ d : Grammar.Expression, d.tokens.length ≤ maxTokens → d.nesting < maxDepth →
      ofTokens d.tokens = .ok d.formula) ∧
    ∀ ts, openings ts < maxDepth → ofTokens ts ≠ fault .tooDeep := by
  refine ⟨?_, ?_, ?_, ?_, ?_, ?_, ?_, fun ts => ofTokens_ne_tooDeep⟩
  · exact progresses_of_follows (fun _ _ _ _ => length_lt_of_found)
      fun n c ts hts hn => follows_expression n hts rfl le_rfl (by omega)
  · intro level
    exact progresses_of_follows (fun _ _ _ _ => length_lt_of_found)
      fun n c ts hts hn => follows_chain n level hts rfl le_rfl (by omega)
  · exact progresses_of_follows (fun _ _ _ _ => length_lt_of_found)
      fun n c ts hts hn => follows_operand n hts rfl le_rfl (by omega)
  · exact progresses_of_follows (fun _ _ _ _ => length_lt_of_found)
      fun n c ts hts hn => follows_power n hts rfl (Nat.le_succ _) (by omega)
  · exact progresses_of_follows (fun _ _ _ _ => length_lt_of_found)
      fun n c ts hts hn => follows_primary n hts rfl (Nat.le_succ _) (by omega)
  · exact progresses_of_follows (fun _ _ _ _ => length_lt_of_found)
      fun n c ts hts hn => follows_arguments n hts rfl le_rfl hn
  · intro d hlen hnesting
    rw [Grammar.ofTokens_tokens d hlen, Grammar.within, if_pos (by omega)]

/-- A sum of two is read inside 255 levels, from the second of six tokens on. -/
theorem readers_progress_sum :
    let ts : List Token := [.symbol .openParen, .number .one, .symbol .plus, .number .one,
      .symbol .closeParen, .symbol .closeParen]
    openings ts < maxDepth ∧ ofTokens ts ≠ fault .tooDeep ∧
    ∃ v c', Course.expression 100 ⟨ts, 1, 255⟩ = some (.ok v, c') ∧ 1 < c'.position ∧
      c'.position ≤ 6 ∧ c'.depth = 255 := by
  intro ts
  obtain ⟨hexpression, -, -, -, -, -, -, hflat⟩ := readers_progress
  obtain ⟨outcome, c', hrun, hends⟩ := hexpression ⟨ts, 1, 255⟩ (by decide) 100 (by decide)
  have hopenings : openings ts < maxDepth := by decide
  have hvalue : Course.expression 100 ⟨ts, 1, 255⟩ =
      some (.ok (.binary .add (.number .one) (.number .one)), ⟨ts, 4, 255⟩) := rfl
  cases hvalue.symm.trans hrun
  obtain ⟨hlt, hle, hdepth, -⟩ := hends.value _ rfl
  exact ⟨hopenings, hflat ts hopenings, _, _, hrun, hlt, hle, hdepth⟩

end RadixCalc.Formula
