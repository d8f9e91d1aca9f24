import RadixCalc.Proofs.Formula.Parsing
import RadixCalc.Proofs.Formula.Variables

/-!
# The variables of a formula, in the order of its text

The variables of a formula are gathered by going down its tree. A formula may be thousands of tokens
high, so they can also be gathered by a loop that keeps the formulas still to be visited on a stack.
Both give one list: the names of the placeholders of the text, each once, where it first occurs.

* `FirstOccurrences` says what that list is, without saying how it is gathered.
* `Formula.walk` is the loop. One step of it leaves the names that are still to come as they were
  (`Formula.foldl_names`), and so does the whole run (`Formula.walk_eq`).
* `Formula.variableNames_ofTokens` compares the two ways with the tokens of the formula.
-/

namespace RadixCalc

/-! ## First occurrences -/

/-- The list holds the members of `names`, each once and in the order in which they first occur. -/
structure FirstOccurrences (list names : List Text) : Prop where
  nodup : list.Nodup
  mem_iff : ∀ name, name ∈ list ↔ name ∈ names
  ordered : list.Pairwise fun m n => names.idxOf m < names.idxOf n

/-- The list with a name at its end, unless it holds the name already. -/
def noteName (seen : List Text) (name : Text) : List Text :=
  if name ∈ seen then seen else seen ++ [name]

/-- One name more, at the end of both lists. -/
theorem FirstOccurrences.snoc {seen names : List Text} (h : FirstOccurrences seen names)
    (name : Text) : FirstOccurrences (noteName seen name) (names ++ [name]) := by
  have hold : seen.Pairwise fun m n => (names ++ [name]).idxOf m < (names ++ [name]).idxOf n := by
    refine h.ordered.imp_of_mem ?_
    intro m n hm hn hlt
    rwa [List.idxOf_append_of_mem ((h.mem_iff m).1 hm), List.idxOf_append_of_mem ((h.mem_iff n).1 hn)]
  by_cases hseen : name ∈ seen
  · rw [noteName, if_pos hseen]
    refine ⟨h.nodup, ?_, hold⟩
    intro n
    have hname := (h.mem_iff name).1 hseen
    simp only [h.mem_iff, List.mem_append, List.mem_singleton]
    constructor
    · exact .inl
    · rintro (hn | rfl)
      · exact hn
      · exact hname
  · have hname : name ∉ names := mt (h.mem_iff name).2 hseen
    rw [noteName, if_neg hseen]
    refine ⟨?_, ?_, ?_⟩
    · exact List.nodup_append.2 ⟨h.nodup, List.nodup_singleton name, by
        rintro m hm n hn rfl
        rw [List.mem_singleton.1 hn] at hm
        exact hseen hm⟩
    · intro n
      simp [h.mem_iff]
    · refine List.pairwise_append.2 ⟨hold, List.pairwise_singleton _ _, ?_⟩
      intro m hm n hn
      have hm' := (h.mem_iff m).1 hm
      rw [List.mem_singleton.1 hn, List.idxOf_append_of_mem hm', List.idxOf_append_of_notMem hname]
      exact (List.idxOf_lt_length_of_mem hm').trans_le (Nat.le_add_right _ _)

theorem firstOccurrences_foldl (names : List Text) :
    FirstOccurrences (names.foldl noteName []) names := by
  induction names using List.reverseRecOn with
  | nil => exact ⟨List.nodup_nil, fun _ => Iff.rfl, List.Pairwise.nil⟩
  | append_singleton names name ih =>
    rw [List.foldl_append]
    exact ih.snoc name

/-- Without its repetitions a list is what is noted when its names come one after the other. -/
theorem eraseDups_eq_foldl (names : List Text) : names.eraseDups = names.foldl noteName [] := by
  induction names using List.reverseRecOn with
  | nil => rfl
  | append_singleton names name ih =>
    rw [List.foldl_append, ← ih, List.eraseDups_append]
    by_cases hname : name ∈ names
    · simp [noteName, hname, List.removeAll]
    · simp [noteName, hname, List.removeAll, List.eraseDups_cons]

namespace Formula

/-! ## Walking a formula with a stack -/

/-- The formulas right below a formula, from left to right. -/
def subformulas : Formula → List Formula
  | number _ => []
  | var _ => []
  | unary _ x => [x]
  | binary _ a b => [a, b]
  | cond c a b => [c, a, b]
  | call _ args => args

/-- What is noted when a formula is met: its name, if it is a variable. -/
def note (seen : List Text) : Formula → List Text
  | var name => noteName seen name
  | _ => seen

mutual

/-- The number of nodes of a formula. -/
def nodeCount : Formula → Nat
  | number _ => 1
  | var _ => 1
  | unary _ x => x.nodeCount + 1
  | binary _ a b => a.nodeCount + b.nodeCount + 1
  | cond c a b => c.nodeCount + a.nodeCount + b.nodeCount + 1
  | call _ args => nodeCountOfAll args + 1

/-- The number of nodes of a list of formulas. -/
def nodeCountOfAll : List Formula → Nat
  | [] => 0
  | x :: xs => x.nodeCount + nodeCountOfAll xs

end

theorem nodeCountOfAll_append (xs ys : List Formula) :
    nodeCountOfAll (xs ++ ys) = nodeCountOfAll xs + nodeCountOfAll ys := by
  induction xs with
  | nil => simp [nodeCountOfAll]
  | cons x xs ih => simp [nodeCountOfAll, ih, Nat.add_assoc]

theorem nodeCount_eq (e : Formula) : e.nodeCount = nodeCountOfAll e.subformulas + 1 := by
  cases e <;> simp [nodeCount, subformulas, nodeCountOfAll, Nat.add_assoc]

/-- The names noted on a walk over the formulas on a stack, its top first: a formula is taken off,
and what lies right below it is put on, so that its leftmost part comes off next. -/
def walk (seen : List Text) : List Formula → List Text
  | [] => seen
  | e :: stack => walk (e.note seen) (e.subformulas ++ stack)
  termination_by stack => nodeCountOfAll stack
  decreasing_by
    rw [nodeCountOfAll_append, nodeCountOfAll, nodeCount_eq]
    omega

/-- The variables of a formula, as a walk over it notes them. -/
def walkedNames (e : Formula) : List Text :=
  walk [] [e]

theorem namesOfAll_append (xs ys : List Formula) :
    namesOfAll (xs ++ ys) = namesOfAll xs ++ namesOfAll ys := by
  induction xs with
  | nil => rfl
  | cons x xs ih => simp [namesOfAll, ih]

/-- One step of the walk: the names of a formula are its own and those right below it. -/
theorem foldl_names (seen : List Text) (e : Formula) :
    e.names.foldl noteName seen = (namesOfAll e.subformulas).foldl noteName (e.note seen) := by
  cases e <;> simp [names, subformulas, note, namesOfAll]

/-- The walk notes the names of all formulas on its stack, from left to right. -/
theorem walk_eq (seen : List Text) (stack : List Formula) :
    walk seen stack = (namesOfAll stack).foldl noteName seen := by
  fun_induction walk seen stack with
  | case1 seen => rfl
  | case2 seen e stack ih =>
    rw [ih, namesOfAll, namesOfAll_append, List.foldl_append, List.foldl_append, foldl_names]

/-- The walk and the recursion gather the same list. -/
theorem walkedNames_eq (e : Formula) : e.walkedNames = e.variableNames := by
  rw [walkedNames, walk_eq, variableNames, eraseDups_eq_foldl, namesOfAll, namesOfAll,
    List.append_nil]

theorem firstOccurrences_variableNames (e : Formula) :
    FirstOccurrences e.variableNames e.names := by
  rw [variableNames, eraseDups_eq_foldl]
  exact firstOccurrences_foldl e.names

/-! ## The variables of a text -/

/-- The leaves of a formula that was read are the placeholders of its tokens, from left to right. -/
theorem names_of_ofTokens {ts : List Token} {e : Formula} (h : ofTokens ts = .ok e) :
    e.names = namesOfTokens ts := by
  obtain ⟨d, rfl, rfl, -⟩ := Grammar.derives_of_ofTokens h
  exact d.names_formula

/-- The variables of a formula that was read are the names of the placeholders of its tokens, each
once, in the order of their first occurrence, whether they are gathered by the recursion or by the
walk; and every placeholder is a leaf of the tree, from left to right. -/
theorem variableNames_ofTokens {ts : List Token} {e : Formula} (h : ofTokens ts = .ok e) :
    FirstOccurrences e.variableNames (namesOfTokens ts) ∧ e.walkedNames = e.variableNames ∧
      e.names = namesOfTokens ts := by
  have hnames := names_of_ofTokens h
  have hfirst := firstOccurrences_variableNames e
  rw [hnames] at hfirst
  exact ⟨hfirst, walkedNames_eq e, hnames⟩

/-- A condition over a call and a power, `{b} ? max({a}, -{b}) : {c}^{a}`: five placeholders and
three variables. -/
theorem variableNames_ofTokens_cond :
    ofTokens [.placeholder ['b'], .symbol .question, .word Builtin.max.name, .symbol .openParen,
        .placeholder ['a'], .symbol .comma, .symbol .minus, .placeholder ['b'],
        .symbol .closeParen, .symbol .colon, .placeholder ['c'], .symbol .caret,
        .placeholder ['a']] =
      .ok (.cond (.var ['b']) (.call .max [.var ['a'], .unary .neg (.var ['b'])])
        (.binary .pow (.var ['c']) (.var ['a']))) ∧
    FirstOccurrences [['b'], ['a'], ['c']] [['b'], ['a'], ['b'], ['c'], ['a']] ∧
    walkedNames (.cond (.var ['b']) (.call .max [.var ['a'], .unary .neg (.var ['b'])])
      (.binary .pow (.var ['c']) (.var ['a']))) = [['b'], ['a'], ['c']] := by
  let leaf (name : Text) : Grammar.Operand := .mk [] (.plain (.var name))
  let arguments : Grammar.Arguments 2 :=
    .more (.ofOperand (leaf ['a'])) (.last (.ofOperand (.mk [.neg] (.plain (.var ['b'])))))
  let d : Grammar.Expression :=
    .cond (Grammar.Chain.loosen 9 (by decide) (.operand (leaf ['b'])) : Grammar.Chain 1)
      (.ofOperand (.mk [] (.plain (.call .max arguments rfl))))
      (.ofOperand (.mk [] (.raised (.var ['c']) (leaf ['a']))))
  have htokens : d.tokens = [.placeholder ['b'], .symbol .question, .word Builtin.max.name,
      .symbol .openParen, .placeholder ['a'], .symbol .comma, .symbol .minus, .placeholder ['b'],
      .symbol .closeParen, .symbol .colon, .placeholder ['c'], .symbol .caret,
      .placeholder ['a']] := by
    simp [d, leaf, arguments, Grammar.Expression.tokens, Grammar.Expression.tokens_ofOperand,
      Grammar.Chain.tokens_loosen, Grammar.Chain.tokens, Grammar.Operand.tokens,
      Grammar.Power.tokens, Grammar.Primary.tokens, Grammar.Arguments.tokens, UnaryOp.symbol]
  have htree : d.formula = .cond (.var ['b']) (.call .max [.var ['a'], .unary .neg (.var ['b'])])
      (.binary .pow (.var ['c']) (.var ['a'])) := rfl
  have hnames : variableNames (.cond (.var ['b']) (.call .max [.var ['a'], .unary .neg (.var ['b'])])
      (.binary .pow (.var ['c']) (.var ['a']))) = [['b'], ['a'], ['c']] := by decide
  have h := Grammar.ofTokens_eq_ok d htokens htree (by decide) (by decide)
  obtain ⟨hfirst, hwalk, -⟩ := variableNames_ofTokens h
  rw [hnames] at hfirst hwalk
  exact ⟨h, hfirst, hwalk⟩

end Formula

end RadixCalc
