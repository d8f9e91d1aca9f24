import RadixCalc.Proofs.Formula.Lexing
import RadixCalc.Proofs.Formula.Parsing

/-!
# The display of a formula, read again

The display of a tree writes every grouping out, except that nothing stands around a unary operator
with its operand. A power binds tighter than a unary operator, so where such a tree is the base of a
power the display denotes another tree: `(-(2)^2)` is the opposite of a square. This is the only
place where the display does not denote its tree.

* `Formula.tokens` are the tokens of the display, and `Formula.ofText_toText_eq` says that the lexer
  finds them.
* `Formula.reread` is the tree that the display denotes, and `Formula.exists_denotes` derives it.
* `Formula.ofText_toText` is the result for displays that are accepted, and
  `Formula.reread_eq_self_iff` says when the tree is the same again.
-/

namespace RadixCalc

namespace Formula

/-! ## The display as tokens -/

mutual

/-- The number literals in a formula, from left to right. -/
def literals : Formula → List Double
  | number v => [v]
  | var _ => []
  | unary _ x => x.literals
  | binary _ a b => a.literals ++ b.literals
  | cond c a b => c.literals ++ a.literals ++ b.literals
  | call _ args => literalsOfAll args

/-- The number literals in a list of formulas, from left to right. -/
def literalsOfAll : List Formula → List Double
  | [] => []
  | x :: xs => x.literals ++ literalsOfAll xs

end

mutual

/-- The tokens of the display of a formula. -/
def tokens : Formula → List Token
  | number v => [.number v]
  | var name => [.placeholder name]
  | unary op x =>
    .symbol op.symbol :: .symbol .openParen :: (x.tokens ++ [.symbol .closeParen])
  | binary op a b =>
    .symbol .openParen :: (a.tokens ++ .symbol op.symbol :: (b.tokens ++ [.symbol .closeParen]))
  | cond c a b =>
    .symbol .openParen :: (c.tokens ++ .symbol .question ::
      (a.tokens ++ .symbol .colon :: (b.tokens ++ [.symbol .closeParen])))
  | call f args =>
    .word f.name :: .symbol .openParen :: (tokensOfAll args ++ [.symbol .closeParen])

/-- The tokens of the displays of a list of formulas, with commas between them. -/
def tokensOfAll : List Formula → List Token
  | [] => []
  | [x] => x.tokens
  | x :: y :: ys => x.tokens ++ .symbol .comma :: tokensOfAll (y :: ys)

end

mutual

/-- The leaves of a formula are tokens that the lexer can yield, and every call has as many
arguments as its function takes. -/
def IsReadable : Formula → Prop
  | number v => v.IsUnsigned
  | var name => Token.IsName name
  | unary _ x => x.IsReadable
  | binary _ a b => a.IsReadable ∧ b.IsReadable
  | cond c a b => c.IsReadable ∧ a.IsReadable ∧ b.IsReadable
  | call f args => f.arity.accepts args.length = true ∧ AreReadable args

/-- All formulas of a list are readable. -/
def AreReadable : List Formula → Prop
  | [] => True
  | x :: xs => x.IsReadable ∧ AreReadable xs

end

end Formula

/-! ## Trees that are read are readable -/

namespace Grammar

open Formula (IsReadable AreReadable)

theorem isReadable_foldr_unary {ops : List UnaryOp} {x : Formula} (h : x.IsReadable) :
    (ops.foldr Formula.unary x).IsReadable := by
  induction ops with
  | nil => exact h
  | cons op ops ih => exact ih

mutual

theorem Expression.isReadable : (e : Expression) → (∀ t ∈ e.tokens, t.IsLexeme) →
    e.formula.IsReadable
  | .chain c, h => c.isReadable h
  | .cond c yes no, h => by
    simp only [Expression.tokens, List.mem_append, List.mem_cons] at h
    exact ⟨c.isReadable fun t ht => h t (.inl ht),
      yes.isReadable fun t ht => h t (.inr (.inr (.inl ht))),
      no.isReadable fun t ht => h t (.inr (.inr (.inr (.inr ht))))⟩

theorem Chain.isReadable : {n : ℕ} → (c : Chain n) → (∀ t ∈ c.tokens, t.IsLexeme) →
    c.formula.IsReadable
  | _, .operand u, h => u.isReadable h
  | _, .level _ head tail, h => by
    simp only [Chain.tokens, List.mem_append] at h
    exact tail.isReadable (fun t ht => h t (.inr ht)) (head.isReadable fun t ht => h t (.inl ht))

theorem Tail.isReadable : {n : ℕ} → (t : Tail n) → (∀ u ∈ t.tokens, u.IsLexeme) →
    {left : Formula} → left.IsReadable → (t.formula left).IsReadable
  | _, .nil, _, _, hleft => hleft
  | _, .cons op _ next rest, h, _, hleft => by
    simp only [Tail.tokens, List.mem_cons, List.mem_append] at h
    exact rest.isReadable (fun t ht => h t (.inr (.inr ht)))
      ⟨hleft, next.isReadable fun t ht => h t (.inr (.inl ht))⟩

theorem Operand.isReadable : (u : Operand) → (∀ t ∈ u.tokens, t.IsLexeme) → u.formula.IsReadable
  | .mk ops p, h => by
    simp only [Operand.tokens, List.mem_append] at h
    exact isReadable_foldr_unary (p.isReadable fun t ht => h t (.inr ht))

theorem Power.isReadable : (p : Power) → (∀ t ∈ p.tokens, t.IsLexeme) → p.formula.IsReadable
  | .plain a, h => a.isReadable h
  | .raised a exponent, h => by
    simp only [Power.tokens, List.mem_append, List.mem_cons] at h
    exact ⟨a.isReadable fun t ht => h t (.inl ht),
      exponent.isReadable fun t ht => h t (.inr (.inr ht))⟩

theorem Primary.isReadable : (a : Primary) → (∀ t ∈ a.tokens, t.IsLexeme) → a.formula.IsReadable
  | .number v, h => h (.number v) List.mem_cons_self
  | .var name, h => h (.placeholder name) List.mem_cons_self
  | .group e, h => by
    simp only [Primary.tokens, List.mem_cons, List.mem_append] at h
    exact e.isReadable fun t ht => h t (.inr (.inl ht))
  | .constant f hf, _ => ⟨hf, trivial⟩
  | .call f args hf, h => by
    simp only [Primary.tokens, List.mem_cons, List.mem_append] at h
    rw [← args.length_formulas] at hf
    exact ⟨hf, args.areReadable fun t ht => h t (.inr (.inr (.inl ht)))⟩

theorem Arguments.areReadable : {n : ℕ} → (args : Arguments n) →
    (∀ t ∈ args.tokens, t.IsLexeme) → AreReadable args.formulas
  | _, .last e, h => ⟨e.isReadable h, trivial⟩
  | _, .more e rest, h => by
    simp only [Arguments.tokens, List.mem_append, List.mem_cons] at h
    exact ⟨e.isReadable fun t ht => h t (.inl ht),
      rest.areReadable fun t ht => h t (.inr (.inr ht))⟩

end

end Grammar

/-- What is read from a text is readable. -/
theorem Formula.isReadable_of_ofText {text : Text} {e : Formula} (h : ofText text = .ok e) :
    e.IsReadable := by
  obtain ⟨ts, hts, htokens⟩ := ofText_eq_ok_iff.1 h
  obtain ⟨d, rfl, rfl, -⟩ := Grammar.derives_of_ofTokens htokens
  exact d.isReadable (Token.isLexeme_of_ofText hts)

/-! ## The lexer reads the display -/

namespace Formula

open Token (EndsNumber ofTextFrom ofTextFrom_number ofTextFrom_placeholder ofTextFrom_name
  ofTextFrom_operator ofTextFrom_punctuation endsNumber_symbol endsNumber_nil)

/-- No operator goes on with the first character of a display. -/
theorem exists_cons_toText {e : Formula} (h : e.IsReadable)
    (hfinite : ∀ v ∈ e.literals, v.isFinite = true) :
    ∃ c cs, e.toText = c :: cs ∧ c ∉ Symbol.extenders := by
  cases e with
  | number v =>
    obtain ⟨rank, rfl⟩ := h.exists_rank (hfinite v (List.mem_singleton_self v))
    obtain ⟨whole, fraction, htext, hne, hdigits, -⟩ := Double.spells_toText rank
    obtain ⟨c, cs, rfl⟩ := List.exists_cons_of_ne_nil hne
    have hc : c.isAlphanum = true := isAlphanum_of_isDigit (hdigits c (by simp))
    rw [toText, htext]
    cases fraction <;> exact ⟨c, _, rfl, Symbol.not_mem_extenders hc⟩
  | var name => exact ⟨_, _, rfl, by decide⟩
  | unary op x => cases op <;> exact ⟨_, _, rfl, by decide⟩
  | binary op a b => exact ⟨_, _, rfl, by decide⟩
  | cond c a b => exact ⟨_, _, rfl, by decide⟩
  | call f args =>
    obtain ⟨c, cs, hname, -, hc⟩ := Token.exists_cons_name f
    exact ⟨c, _, by rw [toText, hname]; rfl, Symbol.not_mem_extenders hc⟩

theorem head?_toText_append {e : Formula} (h : e.IsReadable)
    (hfinite : ∀ v ∈ e.literals, v.isFinite = true) (rest : Text) :
    ∀ c ∈ (e.toText ++ rest).head?, c ∉ Symbol.extenders := by
  obtain ⟨c, cs, htext, hc⟩ := exists_cons_toText h hfinite
  rw [htext, List.cons_append]
  rintro _ ⟨⟩
  exact hc

section Shape

variable (rest : Text)

theorem toText_unary (op : UnaryOp) (x : Formula) :
    (unary op x).toText ++ rest = op.symbol.toText ++ (Symbol.openParen.toText ++
      (x.toText ++ (Symbol.closeParen.toText ++ rest))) := by
  simp [toText, Symbol.toText]

theorem toText_binary (op : BinaryOp) (a b : Formula) :
    (binary op a b).toText ++ rest = Symbol.openParen.toText ++ (a.toText ++
      (op.symbol.toText ++ (b.toText ++ (Symbol.closeParen.toText ++ rest)))) := by
  simp [toText, Symbol.toText]

theorem toText_cond (c a b : Formula) :
    (cond c a b).toText ++ rest = Symbol.openParen.toText ++ (c.toText ++
      (Symbol.question.toText ++ (a.toText ++ (Symbol.colon.toText ++ (b.toText ++
        (Symbol.closeParen.toText ++ rest)))))) := by
  simp [toText, Symbol.toText]

theorem toText_call (f : Builtin) (args : List Formula) :
    (call f args).toText ++ rest = f.name ++ (Symbol.openParen.toText ++
      ([','].intercalate (textsOfAll args) ++ (Symbol.closeParen.toText ++ rest))) := by
  simp [toText, Symbol.toText]

theorem intercalate_textsOfAll (x y : Formula) (ys : List Formula) :
    [','].intercalate (textsOfAll (x :: y :: ys)) ++ rest = x.toText ++ (Symbol.comma.toText ++
      ([','].intercalate (textsOfAll (y :: ys)) ++ rest)) := by
  simp [textsOfAll, Symbol.toText, List.intercalate_cons_cons]

end Shape

mutual

/-- The lexer finds the tokens of a display, in front of a text that does not go on with a
number. -/
theorem ofTextFrom_toText : (e : Formula) → e.IsReadable →
    (∀ v ∈ e.literals, v.isFinite = true) → (rest : Text) → EndsNumber rest →
    (before : List Token) →
    ofTextFrom before (e.toText ++ rest) = ofTextFrom (e.tokens.reverse ++ before) rest
  | number v, h, hfinite, rest, hrest, before => by
    obtain ⟨rank, rfl⟩ := h.exists_rank (hfinite v (List.mem_singleton_self v))
    exact ofTextFrom_number (Double.spells_toText rank) hrest
  | var name, h, _, rest, _, before => ofTextFrom_placeholder h rest
  | unary op x, h, hfinite, rest, hrest, before => by
    rw [toText_unary, ofTextFrom_operator _ (by rintro _ ⟨⟩; decide),
      ofTextFrom_punctuation (by decide), ofTextFrom_toText x h hfinite _ (endsNumber_symbol _ _),
      ofTextFrom_punctuation (by decide)]
    simp [tokens]
  | binary op a b, h, hfinite, rest, hrest, before => by
    simp only [literals, List.mem_append] at hfinite
    have ha := fun v hv => hfinite v (.inl hv)
    have hb := fun v hv => hfinite v (.inr hv)
    rw [toText_binary, ofTextFrom_punctuation (by decide),
      ofTextFrom_toText a h.1 ha _ (endsNumber_symbol _ _),
      ofTextFrom_operator _ (head?_toText_append h.2 hb _),
      ofTextFrom_toText b h.2 hb _ (endsNumber_symbol _ _), ofTextFrom_punctuation (by decide)]
    simp [tokens]
  | cond c a b, h, hfinite, rest, hrest, before => by
    simp only [literals, List.mem_append] at hfinite
    have hc := fun v hv => hfinite v (.inl (.inl hv))
    have ha := fun v hv => hfinite v (.inl (.inr hv))
    have hb := fun v hv => hfinite v (.inr hv)
    rw [toText_cond, ofTextFrom_punctuation (by decide),
      ofTextFrom_toText c h.1 hc _ (endsNumber_symbol _ _), ofTextFrom_punctuation (by decide),
      ofTextFrom_toText a h.2.1 ha _ (endsNumber_symbol _ _), ofTextFrom_punctuation (by decide),
      ofTextFrom_toText b h.2.2 hb _ (endsNumber_symbol _ _), ofTextFrom_punctuation (by decide)]
    simp [tokens]
  | call f args, h, hfinite, rest, hrest, before => by
    rw [toText_call, ofTextFrom_name, ofTextFrom_punctuation (by decide),
      ofTextFrom_textsOfAll args h.2 hfinite _ (endsNumber_symbol _ _),
      ofTextFrom_punctuation (by decide)]
    simp [tokens]

theorem ofTextFrom_textsOfAll : (args : List Formula) → AreReadable args →
    (∀ v ∈ literalsOfAll args, v.isFinite = true) → (rest : Text) → EndsNumber rest →
    (before : List Token) →
    ofTextFrom before ([','].intercalate (textsOfAll args) ++ rest) =
      ofTextFrom ((tokensOfAll args).reverse ++ before) rest
  | [], _, _, rest, _, before => rfl
  | [x], h, hfinite, rest, hrest, before => by
    simp only [literalsOfAll, List.append_nil] at hfinite
    rw [textsOfAll, textsOfAll, List.intercalate_singleton]
    exact ofTextFrom_toText x h.1 hfinite rest hrest before
  | x :: y :: ys, h, hfinite, rest, hrest, before => by
    rw [literalsOfAll] at hfinite
    have hx := fun v hv => hfinite v (List.mem_append_left _ hv)
    have hys := fun v hv => hfinite v (List.mem_append_right _ hv)
    rw [intercalate_textsOfAll, ofTextFrom_toText x h.1 hx _ (endsNumber_symbol _ _),
      ofTextFrom_punctuation (by decide), ofTextFrom_textsOfAll (y :: ys) h.2 hys rest hrest]
    simp [tokensOfAll]

end

/-- The lexer finds the tokens of a display. -/
theorem ofText_toText_eq {e : Formula} (h : e.IsReadable)
    (hfinite : ∀ v ∈ e.literals, v.isFinite = true) : Token.ofText e.toText = .ok e.tokens := by
  have htokens := ofTextFrom_toText e h hfinite [] Token.endsNumber_nil []
  rw [List.append_nil, List.append_nil] at htokens
  rw [Token.ofText, htokens, ofTextFrom, List.reverse_reverse]

/-! ## The tree that the display denotes -/

mutual

/-- The tree that the display of a formula denotes: where a unary operator with its operand is the
base of a power, the operator stands in front of the power. -/
def reread : Formula → Formula
  | number v => number v
  | var name => var name
  | unary op x => unary op x.reread
  | binary .pow (unary op x) b => unary op (binary .pow x.reread b.reread)
  | binary op a b => binary op a.reread b.reread
  | cond c a b => cond c.reread a.reread b.reread
  | call f args => call f (rereadAll args)

/-- The trees that the displays of a list of formulas denote. -/
def rereadAll : List Formula → List Formula
  | [] => []
  | x :: xs => x.reread :: rereadAll xs

end

/-- The unary operator in front of a formula, if it has one. -/
def sign : Formula → List UnaryOp
  | unary op _ => [op]
  | _ => []

mutual

/-- Somewhere in the formula a unary operator with its operand is the base of a power. -/
def HasSignedBase : Formula → Prop
  | number _ => False
  | var _ => False
  | unary _ x => x.HasSignedBase
  | binary op a b => (op = .pow ∧ a.sign ≠ []) ∨ a.HasSignedBase ∨ b.HasSignedBase
  | cond c a b => c.HasSignedBase ∨ a.HasSignedBase ∨ b.HasSignedBase
  | call _ args => AnySignedBase args

/-- One formula of a list has such a base. -/
def AnySignedBase : List Formula → Prop
  | [] => False
  | x :: xs => x.HasSignedBase ∨ AnySignedBase xs

end

theorem reread_binary {op : BinaryOp} {a : Formula} (h : ¬(op = .pow ∧ a.sign ≠ []))
    (b : Formula) : (binary op a b).reread = binary op a.reread b.reread := by
  by_cases hop : op = .pow
  · subst hop
    cases a with
    | unary op x => exact absurd ⟨rfl, List.cons_ne_nil _ _⟩ h
    | number | var | binary | cond | call => rfl
  · cases op <;> first | rfl | exact absurd rfl hop

theorem reread_signed_base {op : BinaryOp} {a : Formula} (h : op = .pow ∧ a.sign ≠ [])
    (b : Formula) : (binary op a b).reread ≠ binary op a b := by
  obtain ⟨rfl, hsign⟩ := h
  cases a with
  | unary op x => exact Formula.noConfusion
  | number | var | binary | cond | call => exact absurd rfl hsign

mutual

/-- The display denotes its tree unless a unary operator stands in the base of a power. -/
theorem reread_eq_self_iff : (e : Formula) → (e.reread = e ↔ ¬e.HasSignedBase)
  | number v => by simp [reread, HasSignedBase]
  | var name => by simp [reread, HasSignedBase]
  | unary op x => by simp [reread, HasSignedBase, reread_eq_self_iff x]
  | binary op a b => by
    by_cases h : op = .pow ∧ a.sign ≠ []
    · exact iff_of_false (reread_signed_base h b) (not_not_intro (.inl h))
    · simp [reread_binary h, HasSignedBase, h, reread_eq_self_iff a, reread_eq_self_iff b]
  | cond c a b => by
    simp [reread, HasSignedBase, reread_eq_self_iff c, reread_eq_self_iff a, reread_eq_self_iff b]
  | call f args => by simp [reread, HasSignedBase, rereadAll_eq_self_iff args]

theorem rereadAll_eq_self_iff :
    (args : List Formula) → (rereadAll args = args ↔ ¬AnySignedBase args)
  | [] => by simp [rereadAll, AnySignedBase]
  | x :: xs => by
    simp [rereadAll, AnySignedBase, reread_eq_self_iff x, rereadAll_eq_self_iff xs]

end

end Formula

/-! ## Derivations of displays -/

namespace Grammar

open Formula (rereadAll tokensOfAll AreReadable)

theorem exists_level {op : BinaryOp} (h : op ≠ .pow) : ∃ n, op ∈ operatorsAt n := by
  cases op with
  | pow => exact absurd rfl h
  | or => exact ⟨1, by decide⟩
  | and => exact ⟨2, by decide⟩
  | bitOr => exact ⟨3, by decide⟩
  | bitAnd => exact ⟨4, by decide⟩
  | eq | ne => exact ⟨5, by decide⟩
  | lt | le | gt | ge => exact ⟨6, by decide⟩
  | shiftLeft | shiftRight => exact ⟨7, by decide⟩
  | add | sub => exact ⟨8, by decide⟩
  | mul | div | rem => exact ⟨9, by decide⟩

/-- Two operands with an operator of some level between them are an expression. -/
theorem exists_binary {op : BinaryOp} (h : op ≠ .pow) (u v : Operand) :
    ∃ e : Expression, e.tokens = u.tokens ++ .symbol op.symbol :: v.tokens ∧
      e.formula = .binary op u.formula v.formula := by
  obtain ⟨n, hop⟩ := exists_level h
  have hn := level_bounds hop
  obtain ⟨last, hlast, hlastf, -⟩ := (Chain.operand v).exists_loosen (m := n + 1) (by omega)
  obtain ⟨c, hc, hcf, -⟩ := (Chain.operand u).exists_snoc (by omega) hop last
  obtain ⟨d, hd, hdf, -⟩ := c.exists_loosen hn.1
  refine ⟨.chain d, ?_, ?_⟩
  · rw [Expression.tokens, hd, hc, hlast, Chain.tokens, Chain.tokens]
  · rw [Expression.formula, hdf, hcf, hlastf, Chain.formula, Chain.formula]

theorem exists_group {ts : List Token} {x : Formula}
    (h : ∃ e : Expression, e.tokens = ts ∧ e.formula = x) :
    ∃ a : Primary, a.tokens = .symbol .openParen :: (ts ++ [.symbol .closeParen]) ∧
      a.formula = x := by
  obtain ⟨e, rfl, rfl⟩ := h
  exact ⟨.group e, rfl, rfl⟩

/-- The operand spells the display of the tree and builds the tree read again. -/
structure Denotes (u : Operand) (e : Formula) : Prop where
  tokens_eq : u.tokens = e.tokens
  formula_eq : u.formula = e.reread

section Denotes

variable {u v w : Operand} {a b c : Formula}

theorem Denotes.exists_expression (h : Denotes u a) :
    ∃ e : Expression, e.tokens = a.tokens ∧ e.formula = a.reread :=
  ⟨.ofOperand u, (Expression.tokens_ofOperand u).trans h.tokens_eq,
    (Expression.formula_ofOperand u).trans h.formula_eq⟩

theorem Denotes.exists_binary (ha : Denotes u a) (hb : Denotes v b) {op : BinaryOp}
    (hop : op ≠ .pow) : ∃ e : Expression, e.tokens = a.tokens ++ .symbol op.symbol :: b.tokens ∧
      e.formula = (Formula.binary op a b).reread := by
  obtain ⟨e, ht, hf⟩ := Grammar.exists_binary hop u v
  refine ⟨e, by rw [ht, ha.tokens_eq, hb.tokens_eq], ?_⟩
  rw [hf, ha.formula_eq, hb.formula_eq, Formula.reread_binary fun h => hop h.1]

/-- The sign of a base stands in front of the power that the display denotes. -/
theorem Denotes.exists_power {base : Primary} (ha : Denotes (.mk a.sign (.plain base)) a)
    (hb : Denotes v b) :
    ∃ e : Expression, e.tokens = a.tokens ++ .symbol .caret :: b.tokens ∧
      e.formula = (Formula.binary .pow a b).reread := by
  have ht := ha.tokens_eq
  have hf := ha.formula_eq
  refine ⟨.ofOperand (.mk a.sign (.raised base v)), ?_, ?_⟩
  · rw [Expression.tokens_ofOperand, ← ht, ← hb.tokens_eq]
    simp [Operand.tokens, Power.tokens]
  · rw [Expression.formula_ofOperand, Operand.formula, Power.formula, hb.formula_eq]
    rw [Operand.formula, Power.formula] at hf
    cases a with
    | unary op x =>
      have hbase : base.formula = x.reread := (Formula.unary.inj hf).2
      rw [hbase]
      rfl
    | number | var | binary | cond | call =>
      rw [Formula.reread_binary fun h => h.2 rfl, ← hf]
      rfl

theorem Denotes.exists_cond (hc : Denotes u c) (ha : Denotes v a) (hb : Denotes w b) :
    ∃ e : Expression, e.tokens = c.tokens ++ .symbol .question ::
        (a.tokens ++ .symbol .colon :: b.tokens) ∧
      e.formula = (Formula.cond c a b).reread := by
  obtain ⟨d, hd, hdf, -⟩ := (Chain.operand u).exists_loosen (m := 1) (by decide)
  obtain ⟨yes, hyes, hyesf⟩ := ha.exists_expression
  obtain ⟨no, hno, hnof⟩ := hb.exists_expression
  refine ⟨.cond d yes no, ?_, ?_⟩
  · rw [Expression.tokens, hd, hyes, hno, Chain.tokens, hc.tokens_eq]
  · rw [Expression.formula, hdf, hyesf, hnof, Chain.formula, hc.formula_eq, Formula.reread]

end Denotes

theorem denotes_of_primary {e : Formula} (hsign : e.sign = []) {a : Primary}
    (ht : a.tokens = e.tokens) (hf : a.formula = e.reread) :
    Denotes (.mk e.sign (.plain a)) e := by
  rw [hsign]
  exact ⟨ht, hf⟩

mutual

/-- A display is derived as a primary behind the sign of its tree, and the derivation builds the
tree read again. -/
theorem exists_denotes : (e : Formula) → e.IsReadable →
    ∃ a : Primary, Denotes (.mk e.sign (.plain a)) e
  | .number v, _ => ⟨.number v, rfl, rfl⟩
  | .var name, _ => ⟨.var name, rfl, rfl⟩
  | .unary op x, h => by
    obtain ⟨base, hx⟩ := exists_denotes x h
    obtain ⟨a, ht, hf⟩ := exists_group hx.exists_expression
    refine ⟨a, ?_, ?_⟩
    · rw [Formula.sign, Operand.tokens, Power.tokens, ht, Formula.tokens]
      rfl
    · rw [Formula.sign, Operand.formula, Power.formula, hf, Formula.reread]
      rfl
  | .binary op a b, h => by
    obtain ⟨base, ha⟩ := exists_denotes a h.1
    obtain ⟨exponent, hb⟩ := exists_denotes b h.2
    have hgroup : ∃ e : Expression, e.tokens = a.tokens ++ .symbol op.symbol :: b.tokens ∧
        e.formula = (Formula.binary op a b).reread := by
      by_cases hop : op = .pow
      · subst hop
        exact ha.exists_power hb
      · exact ha.exists_binary hb hop
    obtain ⟨g, ht, hf⟩ := exists_group hgroup
    exact ⟨g, denotes_of_primary rfl (by rw [ht]; simp [Formula.tokens]) hf⟩
  | .cond c a b, h => by
    obtain ⟨_, hc⟩ := exists_denotes c h.1
    obtain ⟨_, ha⟩ := exists_denotes a h.2.1
    obtain ⟨_, hb⟩ := exists_denotes b h.2.2
    obtain ⟨g, ht, hf⟩ := exists_group (hc.exists_cond ha hb)
    exact ⟨g, denotes_of_primary rfl (by rw [ht]; simp [Formula.tokens]) hf⟩
  | .call f args, h => by
    cases args with
    | nil => exact ⟨.constant f h.1, rfl, rfl⟩
    | cons x xs =>
      obtain ⟨as, ht, hf⟩ := exists_arguments (x :: xs) h.2 (List.cons_ne_nil x xs)
      refine ⟨.call f as h.1, denotes_of_primary rfl ?_ ?_⟩
      · rw [Primary.tokens, ht, Formula.tokens]
      · rw [Primary.formula, hf, Formula.reread]

theorem exists_arguments : (args : List Formula) → AreReadable args → args ≠ [] →
    ∃ as : Arguments args.length, as.tokens = tokensOfAll args ∧ as.formulas = rereadAll args
  | [x], h, _ => by
    obtain ⟨_, hx⟩ := exists_denotes x h.1
    obtain ⟨d, ht, hf⟩ := hx.exists_expression
    exact ⟨.last d, ht, by rw [Arguments.formulas, hf, rereadAll, rereadAll]⟩
  | x :: y :: ys, h, _ => by
    obtain ⟨_, hx⟩ := exists_denotes x h.1
    obtain ⟨d, ht, hf⟩ := hx.exists_expression
    obtain ⟨as, hts, hfs⟩ := exists_arguments (y :: ys) h.2 (List.cons_ne_nil y ys)
    refine ⟨.more d as, ?_, ?_⟩
    · rw [Arguments.tokens, ht, hts, tokensOfAll]
    · rw [Arguments.formulas, hf, hfs]
      rfl

end

end Grammar

/-! ## Reading the display -/

namespace Formula

/-- If the display of a formula that was read is accepted, it is read as the tree it denotes. This
is the tree itself unless a unary operator with its operand is the base of a power in it. -/
theorem ofText_toText {text : Text} {e e' : Formula} (he : ofText text = .ok e)
    (hfinite : ∀ v ∈ e.literals, v.isFinite = true) (he' : ofText e.toText = .ok e') :
    e' = e.reread ∧ (e' = e ↔ ¬e.HasSignedBase) := by
  have hreadable := isReadable_of_ofText he
  rw [ofText, ofText_toText_eq hreadable hfinite] at he'
  obtain ⟨d, ht, rfl, -⟩ := Grammar.derives_of_ofTokens he'
  obtain ⟨_, hdenotes⟩ := Grammar.exists_denotes e hreadable
  obtain ⟨d', ht', hf'⟩ := hdenotes.exists_expression
  obtain rfl : d = d' := Grammar.Expression.eq_of_tokens_eq (ht.trans ht'.symm)
  rw [hf']
  exact ⟨rfl, e.reread_eq_self_iff⟩

/-- A text is read as the tree of a derivation of its tokens. -/
theorem ofText_of_tokens {text : Text} (d : Grammar.Expression)
    (htokens : Token.ofText text = .ok d.tokens) (hlen : d.tokens.length ≤ maxTokens)
    (hnesting : d.nesting < maxDepth) : ofText text = .ok d.formula := by
  rw [ofText, htokens]
  exact (Grammar.ofTokens_tokens d hlen).trans (if_pos (by omega))

/-- The opposite of a square, where the unary operator stands in front of the power. -/
theorem ofText_toText_opposite :
    ∃ e, ofText "-2^2".toList = .ok e ∧ e.toText = "-((2^2))".toList ∧
      ofText "-((2^2))".toList = .ok e ∧ ¬e.HasSignedBase := by
  let opposite : Formula := .unary .neg (.binary .pow (.number (.ofNat 2)) (.number (.ofNat 2)))
  have htext : opposite.toText = "-((2^2))".toList := by decide +kernel
  have hread : ofText "-2^2".toList = .ok opposite :=
    ofText_of_tokens (.ofOperand (.mk [.neg] (.raised (.number (.ofNat 2))
      (.mk [] (.plain (.number (.ofNat 2)))))))
      (by decide +kernel) (by decide) (by decide)
  have hreread : ofText "-((2^2))".toList = .ok opposite :=
    ofText_of_tokens (.ofOperand (.mk [.neg] (.plain (.group (.ofOperand (.mk [] (.plain
      (.group (.ofOperand (.mk [] (.raised (.number (.ofNat 2))
        (.mk [] (.plain (.number (.ofNat 2)))))))))))))))
      (by decide +kernel) (by decide) (by decide)
  have hsame := ofText_toText hread (by decide +kernel) (htext ▸ hreread)
  exact ⟨opposite, hread, htext, hreread, hsame.2.1 rfl⟩

/-- The square of a negative number is displayed as the opposite of a square. -/
theorem ofText_toText_negative :
    ∃ e e', ofText "(-2)^2".toList = .ok e ∧ (∀ v ∈ e.literals, v.isFinite = true) ∧
      e.toText = "(-(2)^2)".toList ∧ ofText "(-(2)^2)".toList = .ok e' ∧
      e'.toText = "-((2^2))".toList ∧ e' ≠ e := by
  refine ⟨.binary .pow (.unary .neg (.number (.ofNat 2))) (.number (.ofNat 2)),
    .unary .neg (.binary .pow (.number (.ofNat 2)) (.number (.ofNat 2))), ?_, by decide +kernel,
    by decide +kernel, ?_, by decide +kernel, Formula.noConfusion⟩
  · exact ofText_of_tokens (.ofOperand (.mk [] (.raised
      (.group (.ofOperand (.mk [.neg] (.plain (.number (.ofNat 2))))))
      (.mk [] (.plain (.number (.ofNat 2)))))))
      (by decide +kernel) (by decide) (by decide)
  · exact ofText_of_tokens (.ofOperand (.mk [] (.plain (.group (.ofOperand (.mk [.neg] (.raised
      (.group (.ofOperand (.mk [] (.plain (.number (.ofNat 2))))))
      (.mk [] (.plain (.number (.ofNat 2)))))))))))
      (by decide +kernel) (by decide) (by decide)

end Formula
end RadixCalc
