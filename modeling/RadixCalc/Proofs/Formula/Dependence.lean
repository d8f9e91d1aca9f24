import RadixCalc.Proofs.Formula.Bounded

/-!
# What the value of a formula depends on

A formula looks up no other name than its variables. So whatever else an environment binds, and
whatever it leaves unbound, shows neither in a value nor in a failure; and this holds of every
branch, looked at or not, because the agreement is asked for all variables alike.

* `Formula.eval_congr` compares two environments that agree on the names in a formula, by recursion
  over the tree and, for the arguments of a call, over their list.
* `Formula.exists_unbound` says which failures there are.
* `Formula.eval_agree` states both for the list of variables.
-/

namespace RadixCalc.Formula

variable {env env' : Environment}

/-! ## Two environments -/

mutual

/-- Environments that agree on the names in a formula let it come out alike. -/
theorem eval_congr : (e : Formula) → (∀ name ∈ e.names, env name = env' name) →
    e.eval env = e.eval env'
  | number _, _ => rfl
  | var name, h => by rw [eval, eval, h name (List.mem_singleton_self name)]
  | unary op x, h => by
    have hx := eval_congr x h
    rw [eval_unary, eval_unary, hx]
  | binary op a b, h => by
    simp only [names, List.mem_append] at h
    have ha := eval_congr a fun n hn => h n (.inl hn)
    have hb := eval_congr b fun n hn => h n (.inr hn)
    rw [eval_binary, eval_binary, ha, hb]
  | cond c a b, h => by
    simp only [names, List.mem_append] at h
    have hc := eval_congr c fun n hn => h n (.inl (.inl hn))
    have ha := eval_congr a fun n hn => h n (.inl (.inr hn))
    have hb := eval_congr b fun n hn => h n (.inr hn)
    rw [eval_cond, eval_cond, hc, ha, hb]
  | call f args, h => by
    have hargs := evalAll_congr args h
    rw [eval_call, eval_call, hargs]

theorem evalAll_congr : (es : List Formula) → (∀ name ∈ namesOfAll es, env name = env' name) →
    evalAll env es = evalAll env' es
  | [], _ => rfl
  | x :: xs, h => by
    simp only [namesOfAll, List.mem_append] at h
    have hx := eval_congr x fun n hn => h n (.inl hn)
    have hxs := evalAll_congr xs fun n hn => h n (.inr hn)
    rw [evalAll, evalAll, hx, hxs]

end

/-! ## Failures -/

/-- The failure is that one of the names has no value. -/
def IsUnbound (env : Environment) (names : List Text) (failure : Failure) : Prop :=
  ∃ name ∈ names, env name = none ∧ failure = .unboundVariable name

theorem IsUnbound.mono {names names' : List Text} {failure : Failure}
    (h : IsUnbound env names failure) (hsub : names ⊆ names') : IsUnbound env names' failure := by
  obtain ⟨name, hname, hnone⟩ := h
  exact ⟨name, hsub hname, hnone⟩

/-- A sequence of two steps fails where one of them does. -/
theorem bind_eq_error {α β : Type} {x : Except Failure α} {f : α → Except Failure β}
    {failure : Failure} (h : x.bind f = .error failure) :
    x = .error failure ∨ ∃ a, x = .ok a ∧ f a = .error failure := by
  cases x with
  | error e =>
    cases h
    exact .inl rfl
  | ok a => exact .inr ⟨a, rfl, h⟩

mutual

/-- The evaluation of a formula fails only for one of its names. -/
theorem exists_unbound : (e : Formula) → {failure : Failure} → e.eval env = .error failure →
    IsUnbound env e.names failure
  | number _, _, h => by cases h
  | var name, _, h => by
    rw [eval] at h
    cases hname : env name with
    | none =>
      rw [hname] at h
      cases h
      exact ⟨name, List.mem_singleton_self name, hname, rfl⟩
    | some v =>
      rw [hname] at h
      cases h
  | unary op x, _, h => by
    rw [eval_unary] at h
    obtain hx | ⟨v, -, hv⟩ := bind_eq_error h
    · exact exists_unbound x hx
    · cases hv
  | binary op a b, _, h => by
    rw [eval_binary] at h
    obtain ha | ⟨x, -, hb⟩ := bind_eq_error h
    · exact (exists_unbound a ha).mono (List.subset_append_left _ _)
    · cases hop : op.decided? x with
      | some v =>
        rw [hop] at hb
        cases hb
      | none =>
        rw [hop] at hb
        obtain hb | ⟨y, -, hy⟩ := bind_eq_error hb
        · exact (exists_unbound b hb).mono (List.subset_append_right _ _)
        · cases hy
  | cond c a b, _, h => by
    rw [eval_cond] at h
    have hfront : c.names ++ a.names ⊆ (cond c a b).names := List.subset_append_left _ _
    obtain hc | ⟨x, -, hx⟩ := bind_eq_error h
    · exact ((exists_unbound c hc).mono (List.subset_append_left _ _)).mono hfront
    · split at hx
      · exact ((exists_unbound a hx).mono (List.subset_append_right _ _)).mono hfront
      · exact (exists_unbound b hx).mono (List.subset_append_right _ _)
  | call f args, _, h => by
    rw [eval_call] at h
    obtain hargs | ⟨vs, -, hvs⟩ := bind_eq_error h
    · exact exists_unbound_of_all args hargs
    · cases hvs

theorem exists_unbound_of_all : (es : List Formula) → {failure : Failure} →
    evalAll env es = .error failure → IsUnbound env (namesOfAll es) failure
  | [], _, h => by cases h
  | x :: xs, _, h => by
    rw [evalAll] at h
    cases hx : x.eval env with
    | error e =>
      rw [hx] at h
      cases h
      exact (exists_unbound x hx).mono (List.subset_append_left _ _)
    | ok v =>
      cases hxs : evalAll env xs with
      | error e =>
        rw [hx, hxs] at h
        cases h
        exact (exists_unbound_of_all xs hxs).mono (List.subset_append_right _ _)
      | ok vs =>
        rw [hx, hxs] at h
        cases h

end

/-! ## The list of variables -/

theorem mem_variableNames {e : Formula} {name : Text} : name ∈ e.variableNames ↔ name ∈ e.names :=
  (firstOccurrences_variableNames e).mem_iff name

/-- Two environments that agree on the variables of a formula give it one value, or let it fail for
one and the same of these variables. So a name that is not on the list has no influence, whether it
is bound, bound anew or left unbound. -/
theorem eval_agree {e : Formula} (h : ∀ name ∈ e.variableNames, env name = env' name) :
    e.eval env = e.eval env' ∧
      (∀ failure, e.eval env = .error failure → IsUnbound env e.variableNames failure) ∧
      ∀ name ∉ e.variableNames, ∀ value, e.eval (Function.update env name value) = e.eval env := by
  refine ⟨?_, ?_, ?_⟩
  · exact eval_congr e fun name hname => h name (mem_variableNames.2 hname)
  · intro failure hfail
    exact (exists_unbound e hfail).mono fun name hname => mem_variableNames.2 hname
  · intro name hname value
    refine eval_congr e fun n hn => Function.update_of_ne ?_ _ _
    rintro rfl
    exact hname (mem_variableNames.2 hn)

/-- Of `{a} ? {b} : max({c}, {a})` with 0 for `a` the third variable is the first to be missed, in
whatever way the name `d` is bound. -/
theorem eval_agree_cond :
    let e : Formula := .cond (.var ['a']) (.var ['b']) (.call .max [.var ['c'], .var ['a']])
    let env : Environment := fun name => if name = ['a'] then some (.zero false) else none
    let env' : Environment := fun name => if name = ['d'] then some .one else env name
    (∀ name ∈ e.variableNames, env name = env' name) ∧ env ['d'] ≠ env' ['d'] ∧
      e.eval env = .error (.unboundVariable ['c']) ∧
      e.eval env' = .error (.unboundVariable ['c']) := by
  intro e env env'
  have hagree : ∀ name ∈ e.variableNames, env name = env' name := by decide
  have heval : e.eval env = .error (.unboundVariable ['c']) := rfl
  obtain ⟨hsame, -, -⟩ := eval_agree hagree
  exact ⟨hagree, by decide, heval, hsame ▸ heval⟩

end RadixCalc.Formula
