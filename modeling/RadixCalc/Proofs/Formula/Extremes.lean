import RadixCalc.Formula.Builtin.Value
import RadixCalc.Proofs.Double.Value

/-!
# The least and the greatest argument

`min` and `max` go through their arguments from an infinity on, keep the more extreme of two numbers
and pass over what is no number. On the number line this is the least and the greatest of the places
that the arguments have, so one of the arguments lies there, and their order does not matter. What
is passed over leaves no trace: where no argument is a number, the infinity itself is returned,
which is a number and none of the arguments.

* `Double.compareBy_iff` and its cases state comparisons as facts about places.
* `Double.position?_min` is one step, and `Double.position?_foldl_min` is the run.
* `Double.neg_foldl_max` turns the greatest number into the least of the opposite numbers.
* `Double.IsExtreme` is what is asked of a result, and `Builtin.value_extremes` says that it is
  met exactly where some argument is a number.
-/

namespace RadixCalc

namespace Double

/-! ## Places on the number line -/

section Places

variable {x y : Double}

theorem isNaN_iff : x.isNaN = true ↔ x.position? = none := by
  cases x <;> simp [isNaN, position?]

theorem isNaN_eq_false_iff : x.isNaN = false ↔ ∃ p, x.position? = some p := by
  rw [← Option.ne_none_iff_exists', Ne, ← isNaN_iff, Bool.not_eq_true]

theorem eq_nan_of_isNaN (h : x.isNaN = true) : x = nan := by
  cases x with
  | nan => rfl
  | infinity _ => cases h
  | finite _ _ => cases h

/-- A comparison holds of the places of two numbers. -/
theorem compareBy_iff {holds : ℤ → ℤ → Bool} :
    compareBy holds x y = true ↔
      ∃ p q, x.position? = some p ∧ y.position? = some q ∧ holds p q = true := by
  unfold compareBy
  cases x.position? <;> cases y.position? <;> simp

theorem eq_iff : x.eq y = true ↔ ∃ p, x.position? = some p ∧ y.position? = some p := by
  simp [eq, compareBy_iff]

theorem le_iff :
    x.le y = true ↔ ∃ p q, x.position? = some p ∧ y.position? = some q ∧ p ≤ q := by
  simp [le, compareBy_iff]

theorem lt_iff :
    x.lt y = true ↔ ∃ p q, x.position? = some p ∧ y.position? = some q ∧ p < q := by
  simp [lt, compareBy_iff]

/-- No number lies beyond the infinities. -/
theorem position?_le {p : ℤ} (h : x.position? = some p) : p ≤ rankCount := by
  cases x with
  | nan => cases h
  | infinity negative =>
    cases h
    unfold signed
    split <;> omega
  | finite negative rank =>
    cases h
    have hlt := rank.isLt
    unfold signed
    split <;> omega

end Places

/-! ## Opposite numbers -/

section Opposite

variable (x y : Double)

theorem position?_neg : (-x).position? = x.position?.map Neg.neg := by
  cases x with
  | nan => rfl
  | infinity negative => cases negative <;> rfl
  | finite negative rank =>
    change some (signed (!negative) rank) = some (-signed negative rank)
    cases negative <;> simp [signed]

theorem isNaN_neg : (-x).isNaN = x.isNaN := by
  cases x <;> rfl

/-- Comparisons that are turned round hold of the opposite numbers. -/
theorem compareBy_neg_neg {holds turned : ℤ → ℤ → Bool} (h : ∀ p q, holds (-p) (-q) = turned q p) :
    compareBy holds (-x) (-y) = compareBy turned y x := by
  unfold compareBy
  rw [position?_neg, position?_neg]
  cases x.position? <;> cases y.position? <;> simp [h]

theorem eq_neg_neg : (-x).eq (-y) = x.eq y := by
  have hswap : y.eq x = x.eq y := Bool.eq_iff_iff.2 (by simp [eq_iff, and_comm])
  rw [← hswap]
  exact compareBy_neg_neg x y fun p q => by simp [eq_comm]

theorem le_neg_neg : (-x).le (-y) = y.le x :=
  compareBy_neg_neg x y fun p q => by simp

theorem lt_neg_neg : (-x).lt (-y) = y.lt x :=
  compareBy_neg_neg x y fun p q => by simp

/-- The greater of two numbers is the opposite of the smaller of the opposite numbers. -/
theorem neg_max : -x.max y = (-x).min (-y) := by
  simp only [max, min, isNaN_neg, lt_neg_neg]
  split_ifs <;> rfl

end Opposite

/-! ## The run over a list -/

/-- The smaller of two numbers lies at the smaller place; what has no place is passed over. -/
theorem position?_min (x y : Double) :
    (x.min y).position? = Option.merge Min.min x.position? y.position? := by
  unfold min
  split
  · next hx =>
    rw [isNaN_iff.1 hx]
    cases y.position? <;> rfl
  split
  · next hy =>
    rw [isNaN_iff.1 hy]
    cases x.position? <;> rfl
  next hx hy =>
  obtain ⟨p, hp⟩ := isNaN_eq_false_iff.1 (Bool.eq_false_of_not_eq_true hx)
  obtain ⟨q, hq⟩ := isNaN_eq_false_iff.1 (Bool.eq_false_of_not_eq_true hy)
  have hlt : y.lt x = true ↔ q < p := by simp [lt_iff, hp, hq]
  rw [hp, hq, Option.merge]
  split
  · next h => rw [hq, min_eq_right (hlt.1 h).le]
  · next h => rw [hp, min_eq_left (not_lt.1 (hlt.not.1 h))]

/-- The places that numbers have. -/
def places (xs : List Double) : List ℤ :=
  xs.filterMap position?

theorem mem_places {xs : List Double} {p : ℤ} :
    p ∈ places xs ↔ ∃ x ∈ xs, x.position? = some p :=
  List.mem_filterMap

/-- The run keeps the least place it has met. -/
theorem position?_foldl_min (xs : List Double) {start : Double} {p : ℤ}
    (hstart : start.position? = some p) :
    (xs.foldl min start).position? = some ((places xs).foldl Min.min p) := by
  induction xs generalizing start p with
  | nil => exact hstart
  | cons x xs ih =>
    have hstep := position?_min start x
    rw [hstart] at hstep
    rw [List.foldl_cons, places]
    cases hx : x.position? with
    | none =>
      rw [hx] at hstep
      rw [ih hstep, List.filterMap_cons_none hx, places]
    | some q =>
      rw [hx] at hstep
      rw [ih hstep, List.filterMap_cons_some hx, List.foldl_cons, places]

/-- From the infinity on the least place is that of an argument, if any has one. -/
theorem position?_foldl_min_infinity {xs : List Double} {p : ℤ} (h : (places xs).min? = some p) :
    (xs.foldl min (infinity false)).position? = some p := by
  rw [position?_foldl_min xs rfl]
  cases hplaces : places xs with
  | nil =>
    rw [hplaces] at h
    cases h
  | cons q qs =>
    have hq : q ∈ places xs := by rw [hplaces]; exact List.mem_cons_self
    obtain ⟨x, -, hx⟩ := mem_places.1 hq
    have hle : Min.min (signed false rankCount) q = q := min_eq_right (position?_le hx)
    rw [hplaces, List.min?_cons'] at h
    rw [List.foldl_cons, hle, h]

theorem neg_foldl_max (xs : List Double) (start : Double) :
    -xs.foldl max start = (xs.map Neg.neg).foldl min (-start) := by
  induction xs generalizing start with
  | nil => rfl
  | cons x xs ih => rw [List.foldl_cons, ih, neg_max, List.map_cons, List.foldl_cons]

/-! ## Extremes of a list -/

/-- What is asked of an extreme of some numbers: it is one of them, or no number where one of them
is none, and it comes before all that are numbers. -/
@[mk_iff]
structure IsExtreme (before : Double → Double → Bool) (xs : List Double) (result : Double) :
    Prop where
  isMember : (∃ x ∈ xs, result.eq x = true) ∨ result.isNaN = true ∧ ∃ x ∈ xs, x.isNaN = true
  before_all : ∀ x ∈ xs, x.isNaN = false → before result x = true

section Extreme

variable (xs : List Double)

/-- From the infinity on the run ends at a number, whatever it has passed over. -/
theorem isNaN_foldl_min_infinity : (xs.foldl min (infinity false)).isNaN = false :=
  isNaN_eq_false_iff.2 ⟨_, position?_foldl_min xs rfl⟩

/-- The run finds the least number just where there is a number at all. -/
theorem isExtreme_min_iff :
    IsExtreme le xs (xs.foldl min (infinity false)) ↔ ∃ x ∈ xs, x.isNaN = false := by
  constructor
  · rintro ⟨⟨x, hx, heq⟩ | ⟨hnan, -⟩, -⟩
    · obtain ⟨p, -, hp⟩ := eq_iff.1 heq
      exact ⟨x, hx, isNaN_eq_false_iff.2 ⟨p, hp⟩⟩
    · rw [isNaN_foldl_min_infinity] at hnan
      cases hnan
  · rintro ⟨x, hx, hnumber⟩
    obtain ⟨q, hq⟩ := isNaN_eq_false_iff.1 hnumber
    have hne : places xs ≠ [] := List.ne_nil_of_mem (mem_places.2 ⟨x, hx, hq⟩)
    obtain ⟨p, hp⟩ := Option.isSome_iff_exists.1 (List.isSome_min?_of_ne_nil hne)
    have hposition := position?_foldl_min_infinity hp
    obtain ⟨hmem, hleast⟩ := List.min?_eq_some_iff.1 hp
    obtain ⟨y, hy, hyp⟩ := mem_places.1 hmem
    refine ⟨.inl ⟨y, hy, eq_iff.2 ⟨p, hposition, hyp⟩⟩, fun z hz hznumber => ?_⟩
    obtain ⟨r, hr⟩ := isNaN_eq_false_iff.1 hznumber
    exact le_iff.2 ⟨p, r, hposition, hr, hleast r (mem_places.2 ⟨z, hz, hr⟩)⟩

/-- A greatest number is the opposite of a least one. -/
theorem isExtreme_neg_iff {result : Double} :
    IsExtreme le (xs.map Neg.neg) (-result) ↔ IsExtreme (fun x y => y.le x) xs result := by
  simp only [isExtreme_iff, List.mem_map, exists_exists_and_eq_and, forall_exists_index, and_imp,
    forall_apply_eq_imp_iff₂, isNaN_neg, eq_neg_neg, le_neg_neg]

theorem isExtreme_max_iff :
    IsExtreme (fun x y => y.le x) xs (xs.foldl max (infinity true)) ↔
      ∃ x ∈ xs, x.isNaN = false := by
  rw [← isExtreme_neg_iff, neg_foldl_max]
  refine (isExtreme_min_iff (xs.map Neg.neg)).trans ?_
  simp [isNaN_neg]

end Extreme

/-- The order of the numbers does not matter. -/
theorem eq_foldl_min_of_perm {xs ys : List Double} (h : xs.Perm ys) :
    (xs.foldl min (infinity false)).eq (ys.foldl min (infinity false)) = true := by
  have hplaces : (places xs).Perm (places ys) := h.filterMap position?
  refine eq_iff.2 ⟨_, position?_foldl_min xs rfl, ?_⟩
  rw [position?_foldl_min ys rfl, hplaces.foldl_op_eq]

theorem eq_foldl_max_of_perm {xs ys : List Double} (h : xs.Perm ys) :
    (xs.foldl max (infinity true)).eq (ys.foldl max (infinity true)) = true := by
  rw [← eq_neg_neg, neg_foldl_max, neg_foldl_max]
  exact eq_foldl_min_of_perm (h.map Neg.neg)

/-- What is passed over leaves no trace. -/
theorem foldl_eq_of_isNaN {op : Double → Double → Double} {start : Double}
    (hop : op start nan = start) {xs : List Double} (h : ∀ x ∈ xs, x.isNaN = true) :
    xs.foldl op start = start := by
  induction xs with
  | nil => rfl
  | cons x xs ih =>
    rw [List.foldl_cons, eq_nan_of_isNaN (h x List.mem_cons_self), hop]
    exact ih fun y hy => h y (List.mem_cons_of_mem _ hy)

end Double

open Double (IsExtreme)

namespace Builtin

/-- `min` and `max` return a least and a greatest argument exactly where some argument is a number;
where none is, they return the infinity from which they start. In either case the order of the
arguments does not matter. -/
theorem value_extremes (args : List Double) :
    (IsExtreme Double.le args (min.value args) ↔ ∃ x ∈ args, x.isNaN = false) ∧
    (IsExtreme (fun x y => y.le x) args (max.value args) ↔ ∃ x ∈ args, x.isNaN = false) ∧
    (∀ others, args.Perm others →
      (min.value args).eq (min.value others) = true ∧
      (max.value args).eq (max.value others) = true) ∧
    ((∀ x ∈ args, x.isNaN = true) →
      min.value args = .infinity false ∧ max.value args = .infinity true) :=
  ⟨Double.isExtreme_min_iff args, Double.isExtreme_max_iff args,
    fun _ h => ⟨Double.eq_foldl_min_of_perm h, Double.eq_foldl_max_of_perm h⟩,
    fun h => ⟨Double.foldl_eq_of_isNaN rfl h, Double.foldl_eq_of_isNaN rfl h⟩⟩

/-- The extremes of a list in which one argument is no number and one is infinite. -/
theorem value_extremes_mixed :
    IsExtreme Double.le [.nan, .one, .infinity true] (min.value [.nan, .one, .infinity true]) ∧
    IsExtreme (fun x y => y.le x) [.nan, .one, .infinity true]
      (max.value [.nan, .one, .infinity true]) ∧
    min.value [.nan, .one, .infinity true] = .infinity true ∧
    max.value [.nan, .one, .infinity true] = .one := by
  have hnumber : ∃ x ∈ [Double.nan, .one, .infinity true], x.isNaN = false :=
    ⟨.one, by simp, rfl⟩
  obtain ⟨hmin, hmax, -⟩ := value_extremes [.nan, .one, .infinity true]
  exact ⟨hmin.2 hnumber, hmax.2 hnumber, by decide, by decide⟩

/-- Two arguments that are no numbers have an infinity for their extremes. -/
theorem value_extremes_nan :
    min.value [.nan, .nan] = .infinity false ∧
    max.value [.nan, .nan] = .infinity true ∧
    ¬IsExtreme Double.le [.nan, .nan] (min.value [.nan, .nan]) ∧
    ¬IsExtreme (fun x y => y.le x) [.nan, .nan] (max.value [.nan, .nan]) := by
  refine ⟨rfl, rfl, fun h => ?_, fun h => ?_⟩
  all_goals
    have hmember := h.isMember
    revert hmember
    decide

end Builtin

end RadixCalc
