import RadixCalc.Proofs.Formula.DecimalPlaces
import RadixCalc.Proofs.Formula.Bounded

/-!
# Evaluation on words that must not leave their range

A rounding to a negative number of places negates this number as a 32-bit word, and the least word
has no opposite. The evaluator wraps around there. Built so that words must not leave their range,
it stops instead, and nothing of the formula has a value then, whatever stands around the rounding.
This file is about that evaluation: it stops for this one reason, at a part that is computed on the
way, and otherwise it comes out as if nothing were checked.

* `Double.roundTo?` is the rounding, and `Double.roundTo?_cases` says where it stops.
* `Formula.evalStopping` is the evaluation; `Formula.Computes` says which parts of a formula are
  computed on the way, and `Formula.Overflows` that a rounding among them stops.
* `Formula.evalStopping_cases` is the result: nothing where a rounding stops, and otherwise what
  the formula comes to.
-/

namespace RadixCalc

/-! ## Words -/

/-- The opposite of a word, where it is a word. -/
def negateWord? (word : Int32) : Option Int32 :=
  if word.toBitVec.negOverflow then none else some (-word)

theorem negateWord?_eq (word : Int32) :
    negateWord? word = if word = Int32.minValue then none else some (-word) := by
  have hleast : word.toBitVec.negOverflow = true ↔ word = Int32.minValue := by
    rw [BitVec.negOverflow, beq_iff_eq, Int32.toInt_toBitVec, ← Int32.toInt_inj]
    rfl
  rw [negateWord?]
  exact if_congr hleast rfl rfl

/-! ## Rounding -/

namespace Double

/-- The number rounded to decimal places, where the places must have an opposite. -/
def roundTo? (x places : Double) : Option Double :=
  if places.toPlaces < 0 then (negateWord? places.toPlaces).map x.roundToMultiple
  else some (x.roundTo places)

/-- The places that have no opposite: minus infinity and all numbers down from the least word. -/
def IsLeastPlaces (places : Double) : Prop :=
  places = infinity true ∨ ∃ q, places.toRat? = some q ∧ q ≤ -2 ^ 31

/-- A value is cut off to no more than a negative integer just where it is no more than that. -/
theorem truncated_le_iff {q : ℚ} {i : ℤ} (hi : i < 0) : truncated q ≤ i ↔ q ≤ i := by
  unfold truncated
  split
  · exact Int.ceil_le
  · next hq =>
    have hnonneg : 0 ≤ q := not_lt.1 hq
    have hfloor : 0 ≤ ⌊q⌋ := Int.floor_nonneg.2 hnonneg
    have hcast : (i : ℚ) < 0 := Int.cast_lt_zero.2 hi
    exact iff_of_false (by omega) (not_le.2 (hcast.trans_le hnonneg))

theorem toPlaces_eq_minValue_iff (places : Double) :
    places.toPlaces = Int32.minValue ↔ IsLeastPlaces places := by
  have h := isTruncation_toPlaces places
  have hleast : Int32.minValue.toInt = -2 ^ 31 := rfl
  rw [← Int32.toInt_inj, hleast]
  cases places with
  | nan =>
    rw [h.nan rfl]
    refine iff_of_false (by decide) ?_
    rintro (heq | ⟨q, hq, -⟩)
    · cases heq
    · cases hq
  | infinity negative =>
    rw [h.infinity negative rfl]
    cases negative with
    | true => exact iff_of_true rfl (.inl rfl)
    | false =>
      refine iff_of_false (by decide) ?_
      rintro (heq | ⟨q, hq, -⟩)
      · cases heq
      · cases hq
  | finite negative rank =>
    have hvalue := toRat?_finite negative rank
    have hcut := truncated_le_iff (i := -2 ^ 31)
      (q := (signed negative (unitsOfRank rank) : ℚ) / (unitsPerOne : ℚ)) (by decide)
    rw [h.finite _ hvalue]
    constructor
    · intro hword
      refine .inr ⟨_, hvalue, ?_⟩
      have hle := hcut.1 (by omega)
      exact_mod_cast hle
    · rintro (heq | ⟨q, hq, hle⟩)
      · cases heq
      · rw [hvalue] at hq
        cases hq
        have hle := hcut.2 (by exact_mod_cast hle)
        omega

/-- Rounding stops at the least places, and anywhere else the opposite is a word. -/
theorem roundTo?_cases (x places : Double) :
    IsLeastPlaces places ∧ x.roundTo? places = none ∨
    ¬IsLeastPlaces places ∧ x.roundTo? places = some (x.roundTo places) := by
  rw [← toPlaces_eq_minValue_iff, roundTo?, negateWord?_eq]
  by_cases hleast : places.toPlaces = Int32.minValue
  · have hsign : places.toPlaces < 0 := by
      rw [hleast]
      decide
    rw [if_pos hsign, if_pos hleast]
    exact .inl ⟨hleast, rfl⟩
  · refine .inr ⟨hleast, ?_⟩
    rw [if_neg hleast]
    split
    · next hsign => simp only [roundTo, if_pos hsign, Option.map_some]
    · rfl

end Double

/-! ## Calls -/

namespace Builtin

open Double (IsLeastPlaces)

/-- The value of a call, where the places of a rounding must have an opposite. -/
def value? (f : Builtin) (args : List Double) : Option Double :=
  match f with
  | round => (args.head?.getD .nan).roundTo? (args[1]?.getD (.zero false))
  | _ => some (f.value args)

/-- The call is a rounding, and its places have no opposite. -/
def Overflows (f : Builtin) (args : List Double) : Prop :=
  f = round ∧ ∃ places, args[1]? = some places ∧ IsLeastPlaces places

theorem not_isLeastPlaces_zero : ¬IsLeastPlaces (.zero false) := by
  rw [← Double.toPlaces_eq_minValue_iff]
  decide +kernel

/-- A call stops where it is such a rounding, and anywhere else it has its value. -/
theorem value?_cases (f : Builtin) (args : List Double) :
    f.Overflows args ∧ f.value? args = none ∨
    ¬f.Overflows args ∧ f.value? args = some (f.value args) := by
  by_cases hf : f = round
  · subst hf
    have hleast : round.Overflows args ↔ IsLeastPlaces (args[1]?.getD (.zero false)) := by
      cases hplaces : args[1]? with
      | none => simp [Overflows, hplaces, not_isLeastPlaces_zero]
      | some places => simp [Overflows, hplaces]
    rw [hleast]
    exact Double.roundTo?_cases _ _
  · refine .inr ⟨fun h => hf h.1, ?_⟩
    unfold value?
    split
    · exact absurd rfl hf
    · rfl

end Builtin

/-! ## Computations that may stop -/

/-- What becomes of a computation that may stop: nothing where it does. -/
abbrev Stopping (α : Type) := Option (Except Failure α)

namespace Stopping

variable {α β : Type}

/-- One computation and then another on its result. What stops or fails first decides. -/
def andThen (x : Stopping α) (f : α → Stopping β) : Stopping β :=
  match x with
  | none => none
  | some (.error e) => some (.error e)
  | some (.ok a) => f a

/-- The computation stops, or it comes out as the other one, which does not. -/
def Follows (x : Stopping α) (y : Except Failure α) : Prop :=
  x = none ∨ x = some y

variable {x : Stopping α} {y : Except Failure α} {f : α → Stopping β}

theorem Follows.andThen {g : α → Except Failure β} (h : Follows x y)
    (hf : ∀ a, y = .ok a → Stopping.Follows (f a) (g a)) : Follows (x.andThen f) (y.bind g) := by
  rcases h with rfl | rfl
  · exact .inl rfl
  · cases y with
    | error e => exact .inr rfl
    | ok a => exact hf a rfl

/-- One computation and then another stop where the first one does, or where the second one does on
its result. -/
theorem Follows.andThen_eq_none_iff (h : Follows x y) :
    x.andThen f = none ↔ x = none ∨ ∃ a, y = .ok a ∧ f a = none := by
  rcases h with rfl | rfl
  · exact iff_of_true rfl (.inl rfl)
  · cases y with
    | error e => simp [Stopping.andThen]
    | ok a => simp [Stopping.andThen]

end Stopping

/-! ## Formulas -/

namespace Formula

mutual

/-- The value of a formula, where the places of a rounding must have an opposite. -/
def evalStopping (env : Environment) : Formula → Stopping Double
  | number v => some (.ok v)
  | var name =>
    match env name with
    | some v => some (.ok v)
    | none => some (.error (.unboundVariable name))
  | unary op x => (x.evalStopping env).andThen fun v => some (.ok (op.apply v))
  | binary op a b =>
    (a.evalStopping env).andThen fun x =>
      match op.decided? x with
      | some v => some (.ok v)
      | none => (b.evalStopping env).andThen fun y => some (.ok (op.apply x y))
  | cond c a b =>
    (c.evalStopping env).andThen fun x =>
      if x.isTrue then a.evalStopping env else b.evalStopping env
  | call f args => (evalAllStopping env args).andThen fun vs => (f.value? vs).map .ok

/-- The values of a list of formulas, from left to right. -/
def evalAllStopping (env : Environment) : List Formula → Stopping (List Double)
  | [] => some (.ok [])
  | x :: xs =>
    (x.evalStopping env).andThen fun v =>
      (evalAllStopping env xs).andThen fun vs => some (.ok (v :: vs))

end

/-- The part is computed on the way to the value of the formula: no operand, condition or argument
in front of it fails, and no operator or condition has decided against it. -/
inductive Computes (env : Environment) : Formula → Formula → Prop
  | self (e : Formula) : Computes env e e
  | operand {op : UnaryOp} {x part : Formula} (h : Computes env x part) :
    Computes env (unary op x) part
  | left {op : BinaryOp} {a b part : Formula} (h : Computes env a part) :
    Computes env (binary op a b) part
  | right {op : BinaryOp} {a b part : Formula} {x : Double} (ha : a.eval env = .ok x)
    (hop : op.decided? x = none) (h : Computes env b part) : Computes env (binary op a b) part
  | condition {c a b part : Formula} (h : Computes env c part) : Computes env (cond c a b) part
  | yes {c a b part : Formula} {x : Double} (hc : c.eval env = .ok x) (hx : x.isTrue = true)
    (h : Computes env a part) : Computes env (cond c a b) part
  | no {c a b part : Formula} {x : Double} (hc : c.eval env = .ok x) (hx : x.isTrue = false)
    (h : Computes env b part) : Computes env (cond c a b) part
  | argument {f : Builtin} {before after : List Formula} {x part : Formula}
    (hbefore : ∀ y ∈ before, ∃ v, y.eval env = .ok v) (h : Computes env x part) :
    Computes env (call f (before ++ x :: after)) part

/-- On the way to the value of the formula a rounding is computed whose places have no opposite. -/
def Overflows (env : Environment) (e : Formula) : Prop :=
  ∃ f args vs, Computes env e (call f args) ∧ evalAll env args = .ok vs ∧ f.Overflows vs

/-! ## Where an evaluation stops -/

section Stopping

variable {env : Environment}

theorem evalAll_cons (x : Formula) (xs : List Formula) :
    evalAll env (x :: xs) =
      (x.eval env).bind fun v => (evalAll env xs).bind fun vs => .ok (v :: vs) := by
  rw [evalAll]
  cases x.eval env with
  | error e => rfl
  | ok v =>
    cases evalAll env xs with
    | error e => rfl
    | ok vs => rfl

mutual

/-- Every operation goes on as the unchecked one does, as long as nothing has stopped. -/
theorem follows_evalStopping : (e : Formula) → Stopping.Follows (e.evalStopping env) (e.eval env)
  | number _ => .inr rfl
  | var name => by
    rw [evalStopping, eval]
    cases env name with
    | none => exact .inr rfl
    | some v => exact .inr rfl
  | unary op x => by
    rw [evalStopping, eval_unary]
    exact (follows_evalStopping x).andThen fun _ _ => .inr rfl
  | binary op a b => by
    rw [evalStopping, eval_binary]
    refine (follows_evalStopping a).andThen fun x _ => ?_
    cases op.decided? x with
    | some v => exact .inr rfl
    | none => exact (follows_evalStopping b).andThen fun _ _ => .inr rfl
  | cond c a b => by
    rw [evalStopping, eval_cond]
    refine (follows_evalStopping c).andThen fun x _ => ?_
    split
    · exact follows_evalStopping a
    · exact follows_evalStopping b
  | call f args => by
    rw [evalStopping, eval_call]
    refine (follows_evalAllStopping args).andThen fun vs _ => ?_
    rcases f.value?_cases vs with ⟨-, hvalue⟩ | ⟨-, hvalue⟩
    · rw [hvalue]
      exact .inl rfl
    · rw [hvalue]
      exact .inr rfl

theorem follows_evalAllStopping :
    (es : List Formula) → Stopping.Follows (evalAllStopping env es) (evalAll env es)
  | [] => .inr rfl
  | x :: xs => by
    rw [evalAllStopping, evalAll_cons]
    exact (follows_evalStopping x).andThen fun _ _ =>
      (follows_evalAllStopping xs).andThen fun _ _ => .inr rfl

end

/-! ## The parts that are computed -/

/-- A rounding stops a formula as well as any part of it whose computation is one of the formula. -/
theorem Overflows.of_computes {x e : Formula} (hx : x.Overflows env)
    (h : ∀ {part}, Computes env x part → Computes env e part) : e.Overflows env := by
  obtain ⟨f, args, vs, hpart, hargs, hf⟩ := hx
  exact ⟨f, args, vs, h hpart, hargs, hf⟩

/-- The operand is computed in any case. -/
theorem overflows_unary {op : UnaryOp} {x : Formula} :
    (unary op x).Overflows env ↔ x.Overflows env := by
  constructor
  · rintro ⟨f, args, vs, hpart, hargs, hf⟩
    cases hpart with
    | operand hpart => exact ⟨f, args, vs, hpart, hargs, hf⟩
  · intro hx
    exact hx.of_computes .operand

/-- The right operand is computed where the left one has a value and does not decide alone. -/
theorem overflows_binary {op : BinaryOp} {a b : Formula} :
    (binary op a b).Overflows env ↔
      a.Overflows env ∨ ∃ x, a.eval env = .ok x ∧ op.decided? x = none ∧ b.Overflows env := by
  constructor
  · rintro ⟨f, args, vs, hpart, hargs, hf⟩
    cases hpart with
    | left hpart => exact .inl ⟨f, args, vs, hpart, hargs, hf⟩
    | right ha hop hpart => exact .inr ⟨_, ha, hop, f, args, vs, hpart, hargs, hf⟩
  · rintro (ha | ⟨x, hx, hop, hb⟩)
    · exact ha.of_computes .left
    · exact hb.of_computes (.right hx hop)

/-- Of the branches only the one that the condition has chosen is computed. -/
theorem overflows_cond {c a b : Formula} :
    (cond c a b).Overflows env ↔
      c.Overflows env ∨ ∃ x, c.eval env = .ok x ∧
        if x.isTrue then a.Overflows env else b.Overflows env := by
  constructor
  · rintro ⟨f, args, vs, hpart, hargs, hf⟩
    cases hpart with
    | condition hpart => exact .inl ⟨f, args, vs, hpart, hargs, hf⟩
    | yes hc hx hpart =>
      refine .inr ⟨_, hc, ?_⟩
      rw [if_pos hx]
      exact ⟨f, args, vs, hpart, hargs, hf⟩
    | no hc hx hpart =>
      refine .inr ⟨_, hc, ?_⟩
      rw [if_neg (by simp [hx])]
      exact ⟨f, args, vs, hpart, hargs, hf⟩
  · rintro (hc | ⟨x, hx, hbranch⟩)
    · exact hc.of_computes .condition
    · split at hbranch
      · next htrue => exact hbranch.of_computes (.yes hx htrue)
      · next hfalse => exact hbranch.of_computes (.no hx (by simpa using hfalse))

/-- One of the formulas computes such a rounding, and those in front of it have values. -/
def OverflowsIn (env : Environment) (es : List Formula) : Prop :=
  ∃ before x after, es = before ++ x :: after ∧
    (∀ y ∈ before, ∃ v, y.eval env = .ok v) ∧ x.Overflows env

theorem not_overflowsIn_nil : ¬OverflowsIn env [] := by
  rintro ⟨before, x, after, hsplit, -⟩
  simp at hsplit

theorem overflowsIn_cons {x : Formula} {xs : List Formula} :
    OverflowsIn env (x :: xs) ↔
      x.Overflows env ∨ ∃ v, x.eval env = .ok v ∧ OverflowsIn env xs := by
  constructor
  · rintro ⟨before, y, after, hsplit, hbefore, hy⟩
    cases before with
    | nil =>
      cases hsplit
      exact .inl hy
    | cons z before =>
      cases hsplit
      obtain ⟨v, hv⟩ := hbefore x List.mem_cons_self
      exact .inr ⟨v, hv, before, y, after, rfl,
        fun z hz => hbefore z (List.mem_cons_of_mem x hz), hy⟩
  · rintro (hx | ⟨v, hv, before, y, after, rfl, hbefore, hy⟩)
    · exact ⟨[], x, xs, rfl, nofun, hx⟩
    · exact ⟨x :: before, y, after, rfl, List.forall_mem_cons.2 ⟨⟨v, hv⟩, hbefore⟩, hy⟩

/-- The arguments are computed one behind the other, and then the call itself. -/
theorem overflows_call {f : Builtin} {args : List Formula} :
    (call f args).Overflows env ↔
      OverflowsIn env args ∨ ∃ vs, evalAll env args = .ok vs ∧ f.Overflows vs := by
  constructor
  · rintro ⟨g, args', vs, hpart, hargs, hg⟩
    cases hpart with
    | self => exact .inr ⟨vs, hargs, hg⟩
    | argument hbefore hpart =>
      exact .inl ⟨_, _, _, rfl, hbefore, g, args', vs, hpart, hargs, hg⟩
  · rintro (⟨before, x, after, rfl, hbefore, hx⟩ | ⟨vs, hargs, hf⟩)
    · exact hx.of_computes (.argument hbefore)
    · exact ⟨f, args, vs, .self _, hargs, hf⟩

/-! ## The result -/

mutual

/-- An evaluation stops just where such a rounding is computed on the way. -/
theorem evalStopping_eq_none_iff :
    (e : Formula) → (e.evalStopping env = none ↔ e.Overflows env)
  | number v => by
    refine iff_of_false nofun ?_
    rintro ⟨_, _, _, hpart, -⟩
    cases hpart
  | var name => by
    refine iff_of_false ?_ ?_
    · rw [evalStopping]
      cases env name with
      | none => exact nofun
      | some v => exact nofun
    · rintro ⟨_, _, _, hpart, -⟩
      cases hpart
  | unary op x => by
    rw [overflows_unary, evalStopping, (follows_evalStopping x).andThen_eq_none_iff,
      evalStopping_eq_none_iff x]
    simp
  | binary op a b => by
    rw [overflows_binary, evalStopping, (follows_evalStopping a).andThen_eq_none_iff,
      evalStopping_eq_none_iff a]
    refine or_congr_right (exists_congr fun x => and_congr_right fun _ => ?_)
    cases op.decided? x with
    | some v => exact iff_of_false nofun fun h => nomatch h.1
    | none =>
      simp only [true_and]
      rw [(follows_evalStopping b).andThen_eq_none_iff, evalStopping_eq_none_iff b]
      simp
  | cond c a b => by
    rw [overflows_cond, evalStopping, (follows_evalStopping c).andThen_eq_none_iff,
      evalStopping_eq_none_iff c]
    refine or_congr_right (exists_congr fun x => and_congr_right fun _ => ?_)
    split
    · exact evalStopping_eq_none_iff a
    · exact evalStopping_eq_none_iff b
  | call f args => by
    rw [overflows_call, evalStopping, (follows_evalAllStopping args).andThen_eq_none_iff,
      evalAllStopping_eq_none_iff args]
    refine or_congr_right (exists_congr fun vs => and_congr_right fun _ => ?_)
    rcases f.value?_cases vs with ⟨hf, hvalue⟩ | ⟨hf, hvalue⟩
    · rw [hvalue]
      exact iff_of_true rfl hf
    · rw [hvalue]
      exact iff_of_false nofun hf

theorem evalAllStopping_eq_none_iff :
    (es : List Formula) → (evalAllStopping env es = none ↔ OverflowsIn env es)
  | [] => iff_of_false nofun not_overflowsIn_nil
  | x :: xs => by
    rw [overflowsIn_cons, evalAllStopping, (follows_evalStopping x).andThen_eq_none_iff,
      evalStopping_eq_none_iff x]
    refine or_congr_right (exists_congr fun v => and_congr_right fun _ => ?_)
    rw [(follows_evalAllStopping xs).andThen_eq_none_iff, evalAllStopping_eq_none_iff xs]
    simp

end

end Stopping

end Formula

end RadixCalc
