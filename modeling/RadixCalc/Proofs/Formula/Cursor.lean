import RadixCalc.Proofs.Formula.Innermost

/-!
# Reading with a cursor

The readers of formulas can be run with one shared state in place of arguments and results: a cursor
into the tokens, whose position and depth every reader changes and has to leave in order. Nothing
in such a reader says that it ends. So the calls that are inside one another are counted, the turns
of a loop among them, and a reader has no outcome where they are more than allowed.

* `Cursor` is the state, `Course` a computation on it.
* `Course.expression`, `Course.chain`, ..., `Course.items` are the readers.
* `Cursor.Reaches` says how a successful reader leaves the cursor, and `Follows` compares a run with
  the outcome of a reader of `RadixCalc.Formula.Parser`; `Follows.bind`, `Follows.next`,
  `Follows.ifNext`, `Follows.expect` and `Follows.level` are the steps that readers are made of.
-/

namespace RadixCalc.Formula

/-- A position in a list of tokens, and the number of operands around it. Both are counted without
the width of a word: a position is no greater than the number of tokens, and a depth that starts at
0 stops one above `maxDepth`, where the formula is refused, so neither comes near the end of one. -/
structure Cursor where
  /-- All tokens of the formula. -/
  tokens : List Token
  /-- The number of tokens that have been taken. -/
  position : ℕ
  /-- The number of levels that have been entered and not left. -/
  depth : ℕ

namespace Cursor

/-- The cursor behind the next token. -/
def advanced (c : Cursor) : Cursor :=
  { c with position := c.position + 1 }

/-- The cursor one level deeper. -/
def entered (c : Cursor) : Cursor :=
  { c with depth := c.depth + 1 }

/-- The cursor one level less deep. -/
def left (c : Cursor) : Cursor :=
  { c with depth := c.depth - 1 }

end Cursor

/-- A computation that moves a cursor: its result, which may be a failure, and the cursor as it is
left in either case; or nothing, where more calls were inside one another than allowed. -/
def Course (α : Type) : Type :=
  Cursor → Option (Except Failure α × Cursor)

namespace Course

variable {α β : Type}

instance : Monad Course where
  pure v c := some (.ok v, c)
  bind m k c :=
    match m c with
    | none => none
    | some (.error e, c') => some (.error e, c')
    | some (.ok v, c') => k v c'

/-- One computation and then another: the first failure ends the run where it leaves the cursor. -/
theorem bind_apply (m : Course α) (k : α → Course β) (c : Cursor) :
    (m >>= k) c =
      match m c with
      | none => none
      | some (.error e, c') => some (.error e, c')
      | some (.ok v, c') => k v c' := rfl

/-! ## Moving the cursor -/

/-- No outcome: more calls are inside one another than allowed. -/
def outOfCalls : Course α :=
  fun _ => none

/-- A failure where the cursor stands. -/
def fail (e : Failure) : Course α :=
  fun c => some (.error e, c)

/-- The token at the cursor. -/
def peek : Course (Option Token) :=
  fun c => some (.ok c.tokens[c.position]?, c)

/-- Goes on behind the token at the cursor, which the caller has seen. -/
def advance : Course Unit :=
  fun c => some (.ok (), c.advanced)

/-- The token at the cursor, and the cursor behind it; at the end it stays. -/
def next : Course (Option Token) :=
  fun c =>
    match c.tokens[c.position]? with
    | none => some (.ok none, c)
    | some t => some (.ok (some t), c.advanced)

/-- The tokens between a position and the cursor. -/
def taken (start : ℕ) : Course (List Token) :=
  fun c => some (.ok ((c.tokens.take c.position).drop start), c)

/-- The place of the cursor, to come back to what has been taken since. -/
def position : Course ℕ :=
  fun c => some (.ok c.position, c)

/-- Goes on behind a symbol where it comes next, and otherwise in front of what comes next. -/
def ifNext (s : Symbol) (behind other : Course α) : Course α := do
  if (← peek) = some (.symbol s) then
    advance
    behind
  else other

/-- Takes a symbol. -/
def expect (s : Symbol) : Course Unit := do
  match ← next with
  | some t => if t = .symbol s then pure () else fail (.badFormula (.misplaced [t]))
  | none => fail (.badFormula .unfinished)

/-- Goes one level deeper, as long as the nesting allows it. -/
def enter : Course Unit :=
  fun c =>
    if maxDepth < c.entered.depth then some (.error (.badFormula .tooDeep), c.entered)
    else some (.ok (), c.entered)

/-- Comes back from a level, also from a failure. -/
def leaving (m : Course α) : Course α :=
  fun c => (m c).map fun (r, c') => (r, c'.left)

/-! ## The readers

The first argument is the number of calls that may be inside one another. -/

/-- Collects the unary operators in front of an operand. -/
def prefixes : ℕ → List UnaryOp → Course (List UnaryOp)
  | 0, _ => outOfCalls
  | n + 1, ops => do
    match (← peek).bind Token.unary? with
    | some op =>
      advance
      prefixes n (ops ++ [op])
    | none => return ops

mutual

/-- Reads a chain of operators, and the branches where it is a condition. -/
def expression : ℕ → Course Formula
  | 0 => outOfCalls
  | n + 1 => do
    let c ← chain n 1
    ifNext .question
      (do
        let a ← expression n
        expect .colon
        let b ← expression n
        return .cond c a b)
      (return c)

/-- Reads operands between binary operators of a level or a higher one. -/
def chain : ℕ → ℕ → Course Formula
  | 0, _ => outOfCalls
  | n + 1, level => do
    let left ← operand n
    chainFrom n level left

/-- The loop over the operators of a chain, with what has been read to their left. -/
def chainFrom : ℕ → ℕ → Formula → Course Formula
  | 0, _, _ => outOfCalls
  | n + 1, level, left => do
    match (← peek).bind Token.binary? with
    | some (p, op) =>
      if p < level then return left
      else
        advance
        let right ← chain n (p + 1)
        chainFrom n level (.binary op left right)
    | none => return left

/-- Reads unary operators with the power behind them, one level deeper. -/
def operand : ℕ → Course Formula
  | 0 => outOfCalls
  | n + 1 => do
    enter
    leaving do
      let ops ← prefixes n []
      let x ← power n
      return ops.foldr .unary x

/-- Reads a primary, and the operand to whose power it is raised. -/
def power : ℕ → Course Formula
  | 0 => outOfCalls
  | n + 1 => do
    let base ← primary n
    ifNext .caret
      (do
        let exponent ← operand n
        return .binary .pow base exponent)
      (return base)

/-- Reads a number, a variable, a call or a formula in parentheses. -/
def primary : ℕ → Course Formula
  | 0 => outOfCalls
  | n + 1 => do
    let start ← position
    match ← next with
    | some (.number v) => return .number v
    | some (.placeholder name) => return .var name
    | some (.word name) =>
      ifNext .openParen
        (do
          let args ← arguments n
          match Builtin.ofName? name with
          | none => fail (.unsupportedFunction name)
          | some f =>
            if f.arity.accepts args.length then return .call f args
            else fail (.badArity name f.arity))
        (fail (.badFormula (.misplaced [.word name])))
    | some (.symbol .openParen) =>
      let args ← arguments n
      match args with
      | [e] => return e
      | _ =>
        let ts ← taken start
        fail (.badFormula (.misplaced ts))
    | some t => fail (.badFormula (.misplaced [t]))
    | none => fail (.badFormula .unfinished)

/-- Reads what stands between parentheses, behind the first of them. -/
def arguments : ℕ → Course (List Formula)
  | 0 => outOfCalls
  | n + 1 => ifNext .closeParen (return []) (items n [])

/-- The loop over the expressions between commas, with those that have been read. -/
def items : ℕ → List Formula → Course (List Formula)
  | 0, _ => outOfCalls
  | n + 1, args => do
    let x ← expression n
    match ← next with
    | some (.symbol .comma) => items n (args ++ [x])
    | some (.symbol .closeParen) => return args ++ [x]
    | some t => fail (.badFormula (.misplaced [t]))
    | none => fail (.badFormula .unclosed)

end

/-! ## The turns of the loops -/

section Loops

variable {n level p : ℕ} {op : UnaryOp} {op₂ : BinaryOp} {ops : List UnaryOp} {left : Formula}
  {c : Cursor}

/-- Where no unary operator comes next, the loop is over. -/
theorem prefixes_of_none (h : c.tokens[c.position]?.bind Token.unary? = none) :
    prefixes (n + 1) ops c = some (.ok ops, c) := by
  simp only [prefixes, bind_apply, peek, h]
  rfl

/-- A unary operator is one turn of the loop. -/
theorem prefixes_of_some (h : c.tokens[c.position]?.bind Token.unary? = some op) :
    prefixes (n + 1) ops c = prefixes n (ops ++ [op]) c.advanced := by
  simp only [prefixes, bind_apply, peek, h, advance]

/-- Where no binary operator comes next, the chain is over. -/
theorem chainFrom_of_none (h : c.tokens[c.position]?.bind Token.binary? = none) :
    chainFrom (n + 1) level left c = some (.ok left, c) := by
  simp only [chainFrom, bind_apply, peek, h]
  rfl

/-- An operator of a lower level is left to the chain around this one. -/
theorem chainFrom_of_lt (h : c.tokens[c.position]?.bind Token.binary? = some (p, op₂))
    (hp : p < level) : chainFrom (n + 1) level left c = some (.ok left, c) := by
  simp only [chainFrom, bind_apply, peek, h, if_pos hp]
  rfl

/-- Any other operator is one turn of the loop: its right operand binds more tightly. -/
theorem chainFrom_of_le (h : c.tokens[c.position]?.bind Token.binary? = some (p, op₂))
    (hp : ¬p < level) :
    chainFrom (n + 1) level left c =
      (chain n (p + 1) >>= fun right => chainFrom n level (.binary op₂ left right)) c.advanced := by
  simp only [chainFrom, bind_apply, peek, h, if_neg hp, advance]

end Loops

end Course

/-! ## Where a reader leaves the cursor -/

namespace Cursor

/-- The cursor is in range, and these are the tokens from it on. -/
structure StandsAt (c : Cursor) (ts : List Token) : Prop where
  inRange : c.position ≤ c.tokens.length
  ahead : c.tokens.drop c.position = ts

/-- The cursor has moved on to the rest of the tokens, and its depth is what it was. -/
structure Reaches (c c' : Cursor) (rest : List Token) : Prop where
  tokens : c'.tokens = c.tokens
  depth : c'.depth = c.depth
  position_le : c.position ≤ c'.position
  standsAt : c'.StandsAt rest

variable {c c' c'' : Cursor} {t : Token} {ts rest rest' : List Token}

theorem StandsAt.length_eq (h : c.StandsAt ts) : c.position + ts.length = c.tokens.length := by
  have hrange := h.inRange
  rw [← h.ahead, List.length_drop]
  omega

theorem StandsAt.getElem?_position (h : c.StandsAt ts) : c.tokens[c.position]? = ts.head? := by
  rw [← h.ahead, List.head?_drop]

theorem Reaches.refl (h : c.StandsAt ts) : c.Reaches c ts :=
  ⟨rfl, rfl, le_rfl, h⟩

theorem Reaches.trans (h : c.Reaches c' rest) (h' : c'.Reaches c'' rest') :
    c.Reaches c'' rest' :=
  ⟨h'.tokens.trans h.tokens, h'.depth.trans h.depth, h.position_le.trans h'.position_le,
    h'.standsAt⟩

/-- One step moves on by one token. -/
theorem StandsAt.reaches_advanced (h : c.StandsAt (t :: ts)) : c.Reaches c.advanced ts := by
  have hlen := h.length_eq
  rw [List.length_cons] at hlen
  refine ⟨rfl, rfl, Nat.le_succ _, ?_, ?_⟩
  · change c.position + 1 ≤ c.tokens.length
    omega
  · rw [advanced, ← List.tail_drop]
    exact congrArg List.tail h.ahead

/-- A cursor never goes back. -/
theorem Reaches.length_le (h : c.Reaches c' rest) (hts : c.StandsAt ts) :
    rest.length ≤ ts.length := by
  have hle := h.position_le
  have hlen := h.standsAt.length_eq
  rw [h.tokens, ← hts.length_eq] at hlen
  omega

/-- With fewer tokens ahead the cursor stands strictly further on. -/
theorem Reaches.position_lt (h : c.Reaches c' rest) (hts : c.StandsAt ts)
    (hlt : rest.length < ts.length) : c.position < c'.position := by
  have hlen := h.standsAt.length_eq
  rw [h.tokens, ← hts.length_eq] at hlen
  omega

/-- The tokens between the two places. -/
theorem Reaches.taken_eq (h : c.Reaches c' rest) (hts : c.StandsAt ts) :
    (c'.tokens.take c'.position).drop c.position = ts.take (ts.length - rest.length) := by
  have hlen := h.standsAt.length_eq
  rw [h.tokens, ← hts.length_eq] at hlen
  have hcount : c'.position - c.position = ts.length - rest.length := by omega
  rw [List.drop_take, h.tokens, hts.ahead, hcount]

/-- The tokens ahead open no more levels than those ahead before. -/
theorem Reaches.openings_le (h : c.Reaches c' rest) (hts : c.StandsAt ts) :
    openings rest ≤ openings ts := by
  rw [← h.standsAt.ahead, ← hts.ahead, h.tokens]
  exact (List.drop_sublist_drop_left _ h.position_le).countP_le

end Cursor

/-- A run from a cursor follows the outcome of a reader: it ends with the same value or failure.
With a value it leaves the cursor in front of the tokens that are left, as deep as before. A failure
leaves it as deep as before as well, except where the nesting is too deep, which the given number of
levels has to account for: the level that could not be entered has not been left. -/
inductive Follows {α : Type} (levels : ℕ) (c : Cursor) :
    Except Failure (α × List Token) → Option (Except Failure α × Cursor) → Prop where
  | value {v : α} {rest : List Token} {c' : Cursor} (h : c.Reaches c' rest) :
      Follows levels c (.ok (v, rest)) (some (.ok v, c'))
  | failure {e : Failure} {c' : Cursor} (htokens : c'.tokens = c.tokens)
      (hdepth : c'.depth = c.depth) (he : e ≠ .badFormula .tooDeep) :
      Follows levels c (.error e) (some (.error e, c'))
  | tooDeep {c' : Cursor} (htokens : c'.tokens = c.tokens) (hdepth : c'.depth = c.depth + 1)
      (hlevels : maxDepth ≤ levels) :
      Follows levels c (fault .tooDeep) (some (.error (.badFormula .tooDeep), c'))

namespace Follows

open Course

variable {α β : Type} {levels : ℕ} {c c' : Cursor} {s : Symbol}
  {x : Except Failure (α × List Token)} {run : Option (Except Failure α × Cursor)}

/-- What follows from a cursor further on follows from the cursor before. -/
theorem of_reaches {rest : List Token} (h : c.Reaches c' rest) (hx : Follows levels c' x run) :
    Follows levels c x run := by
  cases hx with
  | value h' => exact .value (h.trans h')
  | failure htokens hdepth he =>
    exact .failure (htokens.trans h.tokens) (hdepth.trans h.depth) he
  | tooDeep htokens hdepth hlevels =>
    exact .tooDeep (htokens.trans h.tokens) (hdepth.trans (by rw [h.depth])) hlevels

/-- Two runs in a row follow two readers in a row. -/
theorem bind {m : Course α} {k : α → Course β}
    {f : α × List Token → Except Failure (β × List Token)} (hx : Follows levels c x (m c))
    (hk : ∀ v rest c', x = .ok (v, rest) → c.Reaches c' rest →
      Follows levels c' (f (v, rest)) (k v c')) :
    Follows levels c (x.bind f) ((m >>= k) c) := by
  rw [bind_apply]
  generalize m c = run at hx ⊢
  cases hx with
  | value h => exact of_reaches h (hk _ _ _ rfl h)
  | failure htokens hdepth he => exact .failure htokens hdepth he
  | tooDeep htokens hdepth hlevels => exact .tooDeep htokens hdepth hlevels

/-- A value of its own, where nothing is read. -/
theorem of_pure {ts : List Token} (hts : c.StandsAt ts) (v : α) :
    Follows levels c (.ok (v, ts)) ((pure v : Course α) c) :=
  .value (.refl hts)

/-- A failure of its own, where nothing is read. -/
theorem of_fault {f : FormulaFault} (hf : f ≠ .tooDeep) :
    Follows levels c (fault f : Except Failure (α × List Token)) (fail (.badFormula f) c) := by
  refine .failure rfl rfl ?_
  rintro ⟨⟩
  exact hf rfl

/-- A run that is followed by something else on the value alone. -/
theorem map {f : α → β} {m : Course α} (hx : Follows levels c x (m c)) :
    Follows levels c (x.bind fun (v, rest) => .ok (f v, rest))
      ((m >>= fun v => pure (f v)) c) :=
  hx.bind fun v _ _ _ h => of_pure h.standsAt (f v)

theorem position {k : ℕ → Course α} (h : Follows levels c x (k c.position c)) :
    Follows levels c x ((Course.position >>= k) c) := h

section Steps

variable {ts : List Token} (hts : c.StandsAt ts)

include hts

/-- Taking the next token, on which the run goes on. -/
theorem next {k : Option Token → Course α}
    (hcons : ∀ t rest, ts = t :: rest → c.Reaches c.advanced rest →
      Follows levels c.advanced x (k (some t) c.advanced))
    (hnil : ts = [] → Follows levels c x (k none c)) :
    Follows levels c x ((Course.next >>= k) c) := by
  rw [bind_apply, Course.next, hts.getElem?_position]
  cases ts with
  | nil => exact hnil rfl
  | cons t rest =>
    have h := hts.reaches_advanced
    exact of_reaches h (hcons t rest rfl h)

/-- The choice by the next symbol is the choice of the reader. -/
theorem ifNext {behind other : Course α} {f : List Token → Except Failure (α × List Token)}
    (hbehind : ∀ rest, behind? s ts = some rest → c.Reaches c.advanced rest →
      Follows levels c.advanced (f rest) (behind c.advanced))
    (hother : behind? s ts = none → Follows levels c x (other c)) :
    Follows levels c
      (match behind? s ts with
      | none => x
      | some rest => f rest)
      (Course.ifNext s behind other c) := by
  change Follows levels c _
    ((if c.tokens[c.position]? = some (.symbol s) then advance >>= fun _ => behind else other) c)
  rw [hts.getElem?_position]
  cases hs : behind? s ts with
  | none =>
    have hne : ts.head? ≠ some (.symbol s) := by
      intro h
      obtain ⟨rest, rfl⟩ := List.head?_eq_some_iff.1 h
      rw [behind?_self] at hs
      cases hs
    rw [if_neg hne]
    exact hother hs
  | some rest =>
    obtain rfl := behind?_eq_some hs
    have h := hts.reaches_advanced
    rw [if_pos List.head?_cons]
    exact of_reaches h (hbehind rest hs h)

/-- A symbol that has to come next. -/
theorem of_expect :
    Follows levels c
      (match behind? s ts with
      | none => fault (unexpected ts .unfinished)
      | some rest => .ok ((), rest))
      (Course.expect s c) := by
  refine next hts (k := fun
    | some t => if t = .symbol s then pure () else fail (.badFormula (.misplaced [t]))
    | none => fail (.badFormula .unfinished)) ?_ ?_
  · rintro t rest rfl h
    rw [behind?]
    simp only
    by_cases ht : t = .symbol s
    · rw [if_pos ht, if_pos ht]
      exact of_pure h.standsAt ()
    · rw [if_neg ht, if_neg ht]
      exact of_fault (by simp [unexpected])
  · rintro rfl
    exact of_fault (by simp [unexpected])

/-- A symbol that has to come next, behind which the run goes on. -/
theorem expect {k : Unit → Course α} {f : List Token → Except Failure (α × List Token)}
    (h : ∀ rest c', behind? s ts = some rest → c.Reaches c' rest →
      Follows levels c' (f rest) (k () c')) :
    Follows levels c
      (match behind? s ts with
      | none => fault (unexpected ts .unfinished)
      | some rest => f rest)
      ((Course.expect s >>= k) c) := by
  have hexpect : Follows levels c _ (Course.expect s c) := of_expect hts
  cases hs : behind? s ts with
  | none =>
    rw [hs] at hexpect
    exact hexpect.bind (f := fun (_, rest) => f rest) nofun
  | some rest =>
    rw [hs] at hexpect
    refine hexpect.bind (f := fun (_, rest) => f rest) ?_
    rintro _ _ c' ⟨⟩ hreaches
    exact h rest c' hs hreaches

end Steps

/-- A level that is entered, where the nesting allows it, and left again. -/
theorem level {m : Course α} (hlevels : maxDepth ≤ c.depth → maxDepth ≤ levels)
    (hm : c.depth < maxDepth → Follows levels c.entered x (m c.entered)) :
    Follows levels c (if maxDepth ≤ c.depth then fault .tooDeep else x)
      ((enter >>= fun _ => leaving m) c) := by
  by_cases hdeep : maxDepth ≤ c.depth
  · have henter : enter c = some (.error (.badFormula .tooDeep), c.entered) :=
      if_pos (Nat.lt_succ_of_le hdeep)
    rw [bind_apply, henter, if_pos hdeep]
    exact .tooDeep rfl rfl (hlevels hdeep)
  · have henter : enter c = some (.ok (), c.entered) :=
      if_neg (not_lt.2 (Nat.succ_le_of_lt (not_le.1 hdeep)))
    have hm := hm (not_le.1 hdeep)
    rw [bind_apply, henter, if_neg hdeep]
    change Follows levels c x (leaving m c.entered)
    rw [leaving]
    generalize m c.entered = run at hm ⊢
    cases hm with
    | value h =>
      exact .value ⟨h.tokens, congrArg (· - 1) h.depth, h.position_le, h.standsAt.inRange,
        h.standsAt.ahead⟩
    | failure htokens hdepth he => exact .failure htokens (congrArg (· - 1) hdepth) he
    | tooDeep htokens hdepth hlevels =>
      exact .tooDeep htokens (congrArg (· - 1) hdepth) hlevels

end Follows

end RadixCalc.Formula
