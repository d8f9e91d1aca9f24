import RadixCalc.Double.Arithmetic
import RadixCalc.Proofs.Digits
import RadixCalc.Proofs.Double.Value

/-!
# Where arithmetic on doubles is exact

Rounding depends on the value alone (`Double.ofUnits_mul_mul`), it returns what is a double already,
and from `2 ^ 1024` on it gives an infinity (`Double.ofUnits_of_le`). A magnitude is a double as
soon as its significant bits are few and it does not overflow (`Double.exists_rank`).

Natural numbers with at most 53 significant bits are *short*. They are closed under scaling by
powers of two and under dropping low bits, so a computation that stays among them rounds nowhere:

* `Double.ofNat_mul` and `Double.ofNat_add`: product and sum of short numbers are rounded once, also
  where they overflow.
* `Double.ofDigits_eq_ofNat`: the digits of a short number in a base that is a power of two.
* `Double.powNat_two_pow` and `Double.toRat?_ofNat_div`: powers of two, and division by them.
-/

namespace RadixCalc

/-! ## Rounding depends on the value alone -/

theorem divNearestEven_mul_mul (num den : ℕ) {k : ℕ} (hk : 0 < k) :
    divNearestEven (num * k) (den * k) = divNearestEven num den := by
  have hlt : 2 * (num % den * k) < den * k ↔ 2 * (num % den) < den := by
    rw [← Nat.mul_assoc, Nat.mul_lt_mul_right hk]
  have heq : 2 * (num % den * k) = den * k ↔ 2 * (num % den) = den := by
    rw [← Nat.mul_assoc, Nat.mul_left_inj hk.ne']
  unfold divNearestEven
  simp only [Nat.mul_div_mul_right _ _ hk, Nat.mul_mod_mul_right, hlt, heq]

theorem nearestRank_mul_mul (num den : ℕ) {k : ℕ} (hk : 0 < k) :
    nearestRank (num * k) (den * k) = nearestRank num den := by
  unfold nearestRank
  simp only [Nat.mul_div_mul_right _ _ hk, Nat.mul_right_comm den k,
    divNearestEven_mul_mul num _ hk]

theorem le_divNearestEven (num den : ℕ) : num / den ≤ divNearestEven num den := by
  unfold divNearestEven
  simp only
  split <;> omega

theorem divNearestUp_mul_mul (num den : ℕ) {k : ℕ} (hk : 0 < k) :
    divNearestUp (num * k) (den * k) = divNearestUp num den := by
  unfold divNearestUp
  rw [← Nat.mul_assoc, ← Nat.mul_assoc, ← Nat.add_mul, Nat.mul_div_mul_right _ _ hk]

theorem divNearestUp_mul (q : ℕ) {den : ℕ} (h : 0 < den) : divNearestUp (q * den) den = q := by
  unfold divNearestUp
  have hsum : 2 * (q * den) + den = den + 2 * den * q := by ring
  rw [hsum, Nat.add_mul_div_left _ _ (by omega), Nat.div_eq_of_lt (by omega), Nat.zero_add]

theorem divNearestUp_le {num den bound : ℕ} (hnum : num ≤ bound) (hden : 0 < den) :
    divNearestUp num den ≤ bound := by
  unfold divNearestUp
  apply Nat.le_of_lt_succ
  rw [Nat.div_lt_iff_lt_mul (by omega)]
  nlinarith

namespace Double

theorem unitsPerOne_eq : unitsPerOne = 2 ^ unitHalvings := rfl

theorem binadeSize_eq_two_pow : binadeSize = 2 ^ significandBits := rfl

-- The number of units in one is never to be computed.
attribute [local irreducible] unitsPerOne

theorem ofUnits_mul_mul (negative : Bool) (num den : ℕ) {k : ℕ} (hk : 0 < k) :
    ofUnits negative (num * k) (den * k) = ofUnits negative num den := by
  rw [ofUnits, nearestRank_mul_mul num den hk, ofUnits]

/-- A quotient that is a magnitude is rounded to that magnitude. -/
theorem ofUnits_unitsOfRank_mul (negative : Bool) (rank : Fin rankCount) {den : ℕ}
    (hden : 0 < den) : ofUnits negative (unitsOfRank rank * den) den = finite negative rank := by
  have hscale := ofUnits_mul_mul negative (unitsOfRank rank) 1 hden
  rwa [Nat.one_mul, ofUnits_unitsOfRank] at hscale

/-! ## Magnitudes -/

theorem significandOfRank_lt (rank : ℕ) : significandOfRank rank < 2 * binadeSize := by
  unfold significandOfRank exponentOfRank
  rw [binadeSize_eq]
  omega

/-- A significand with the leading bit of its binade, or one of the smallest magnitudes, names its
rank. -/
theorem unitsOfRank_of_leading {m e : ℕ} (hm : m < 2 * binadeSize) (h : binadeSize ≤ m ∨ e = 0) :
    unitsOfRank (e * binadeSize + m) = m * 2 ^ e := by
  have hexponent : exponentOfRank (e * binadeSize + m) = e := by
    unfold exponentOfRank
    rw [binadeSize_eq] at *
    omega
  rw [unitsOfRank, significandOfRank, hexponent, Nat.add_sub_cancel_left]

/-- Every significand can be brought to its binade by doubling. -/
theorem exists_leading {m : ℕ} (hm : m < 2 * binadeSize) (e : ℕ) :
    ∃ m' e', m' * 2 ^ e' = m * 2 ^ e ∧ m' < 2 * binadeSize ∧ (binadeSize ≤ m' ∨ e' = 0) := by
  induction e generalizing m with
  | zero => exact ⟨m, 0, rfl, hm, .inr rfl⟩
  | succ e ih =>
    by_cases hle : binadeSize ≤ m
    · exact ⟨m, e + 1, rfl, hm, .inl hle⟩
    · obtain ⟨m', e', hvalue, h⟩ := ih (m := 2 * m) (by omega)
      exact ⟨m', e', by rw [hvalue, pow_succ]; ring, h⟩

/-- A magnitude with at most 53 significant bits that does not overflow is a double. -/
theorem exists_rank {m e : ℕ} (hm : m ≤ 2 * binadeSize)
    (hlt : m * 2 ^ e < 2 ^ 1024 * unitsPerOne) :
    ∃ rank : Fin rankCount, unitsOfRank rank = m * 2 ^ e := by
  obtain ⟨m', e', hvalue, hm', hleading⟩ : ∃ m' e', m' * 2 ^ e' = m * 2 ^ e ∧
      m' < 2 * binadeSize ∧ (binadeSize ≤ m' ∨ e' = 0) := by
    rcases Nat.lt_or_eq_of_le hm with hm | rfl
    · exact exists_leading hm e
    · exact ⟨binadeSize, e + 1, by rw [pow_succ]; ring, by decide, .inl le_rfl⟩
  have hrank : e' * binadeSize + m' < rankCount := by
    rcases hleading with hleading | rfl
    · have hpow : 2 ^ (significandBits + e') < 2 ^ (1024 + unitHalvings) := by
        rw [pow_add, pow_add, ← binadeSize_eq_two_pow, ← unitsPerOne_eq]
        exact ((Nat.mul_le_mul_right _ hleading).trans_eq hvalue).trans_lt hlt
      have hexponent := (Nat.pow_lt_pow_iff_right (by decide)).1 hpow
      rw [significandBits, unitHalvings] at hexponent
      rw [rankCount, binadeSize_eq] at *
      omega
    · rw [rankCount, binadeSize_eq] at *
      omega
  exact ⟨⟨_, hrank⟩, by rw [← hvalue]; exact unitsOfRank_of_leading hm' hleading⟩

/-- From `2 ^ 1024` on every magnitude overflows. -/
theorem ofUnits_of_le {units : ℕ} (h : 2 ^ 1024 * unitsPerOne ≤ units) (negative : Bool) :
    ofUnits negative units 1 = infinity negative := by
  have hne : units ≠ 0 := by
    rintro rfl
    exact absurd h (Nat.not_le.2 (mul_pos (pow_pos two_pos 1024) unitsPerOne_pos))
  have hlog : 1024 + unitHalvings ≤ units.log2 := by
    rwa [Nat.le_log2 hne, pow_add, ← unitsPerOne_eq]
  have hbinade : binadeSize ≤ units / 2 ^ binadeExponent units := by
    rw [Nat.le_div_iff_mul_le (Nat.two_pow_pos _), binadeSize_eq_two_pow, ← pow_add]
    refine (Nat.pow_le_pow_right (by decide) ?_).trans (Nat.log2_self_le hne)
    rw [binadeExponent, significandBits]
    rw [unitHalvings] at hlog
    omega
  have hexponent : 2046 ≤ binadeExponent units := by
    rw [binadeExponent, significandBits]
    rw [unitHalvings] at hlog
    omega
  have hrank : ¬nearestRank units 1 < rankCount := by
    have hround := le_divNearestEven units (2 ^ binadeExponent units)
    have hmul := Nat.mul_le_mul_right binadeSize hexponent
    rw [nearestRank, Nat.div_one, Nat.one_mul, rankCount]
    omega
  rw [ofUnits, ofRank, dif_neg hrank]

/-! ## Short numbers -/

/-- The number has at most 53 significant bits. -/
def IsShort (n : ℕ) : Prop :=
  ∃ m e, m ≤ 2 * binadeSize ∧ n = m * 2 ^ e

theorem isShort_of_le {n : ℕ} (h : n ≤ 2 * binadeSize) : IsShort n :=
  ⟨n, 0, h, (Nat.mul_one n).symm⟩

theorem isShort_two_pow (k : ℕ) : IsShort (2 ^ k) :=
  ⟨1, k, by decide, (Nat.one_mul _).symm⟩

theorem IsShort.mul_two_pow {n : ℕ} (h : IsShort n) (k : ℕ) : IsShort (n * 2 ^ k) := by
  obtain ⟨m, e, hm, rfl⟩ := h
  exact ⟨m, e + k, hm, by rw [pow_add, Nat.mul_assoc]⟩

/-- Dropping low bits leaves a short number short. -/
theorem IsShort.div_two_pow {n : ℕ} (h : IsShort n) (k : ℕ) : IsShort (n / 2 ^ k) := by
  obtain ⟨m, e, hm, rfl⟩ := h
  rcases Nat.le_total k e with hk | hk
  · obtain ⟨j, rfl⟩ := Nat.exists_eq_add_of_le' hk
    refine ⟨m, j, hm, ?_⟩
    rw [pow_add, ← Nat.mul_assoc, Nat.mul_div_cancel _ (Nat.two_pow_pos k)]
  · obtain ⟨j, rfl⟩ := Nat.exists_eq_add_of_le' hk
    rw [pow_add, Nat.mul_div_mul_right _ _ (Nat.two_pow_pos e)]
    exact isShort_of_le ((Nat.div_le_self _ _).trans hm)

/-- So does cutting off high bits. -/
theorem IsShort.mod_two_pow {n : ℕ} (h : IsShort n) (k : ℕ) : IsShort (n % 2 ^ k) := by
  obtain ⟨m, e, hm, rfl⟩ := h
  rcases Nat.le_total k e with hk | hk
  · obtain ⟨j, rfl⟩ := Nat.exists_eq_add_of_le' hk
    rw [pow_add, ← Nat.mul_assoc, Nat.mul_mod_left]
    exact isShort_of_le (Nat.zero_le _)
  · obtain ⟨j, rfl⟩ := Nat.exists_eq_add_of_le' hk
    rw [pow_add, Nat.mul_mod_mul_right]
    exact ⟨m % 2 ^ j, e, (Nat.mod_le _ _).trans hm, rfl⟩

/-- So does rounding a number of units to a whole number of ones. -/
theorem IsShort.divNearestUp {n : ℕ} (h : IsShort n) :
    IsShort (RadixCalc.divNearestUp n unitsPerOne) := by
  obtain ⟨m, e, hm, rfl⟩ := h
  rw [unitsPerOne_eq]
  rcases Nat.le_total unitHalvings e with hle | hle
  · obtain ⟨j, rfl⟩ := Nat.exists_eq_add_of_le' hle
    rw [pow_add, ← Nat.mul_assoc, divNearestUp_mul _ (Nat.two_pow_pos _)]
    exact ⟨_, j, hm, rfl⟩
  · obtain ⟨j, hj⟩ := Nat.exists_eq_add_of_le' hle
    rw [hj, pow_add, divNearestUp_mul_mul _ _ (Nat.two_pow_pos _)]
    exact isShort_of_le (divNearestUp_le hm (Nat.two_pow_pos j))

theorem isShort_unitsOfRank (rank : ℕ) : IsShort (unitsOfRank rank) :=
  ⟨_, _, (significandOfRank_lt rank).le, rfl⟩

theorem ofNat_of_le {n : ℕ} (h : 2 ^ 1024 ≤ n) : ofNat n = infinity false :=
  ofUnits_of_le (Nat.mul_le_mul_right _ h) false

/-- A short number that does not overflow is a double. -/
theorem IsShort.exists_ofNat {n : ℕ} (h : IsShort n) (hlt : n < 2 ^ 1024) :
    ∃ rank : Fin rankCount, ofNat n = finite false rank ∧
      unitsOfRank rank = n * unitsPerOne := by
  obtain ⟨m, e, hm, hvalue⟩ := h.mul_two_pow unitHalvings
  obtain ⟨rank, hrank⟩ := exists_rank hm (e := e) (by
    rw [← hvalue, ← unitsPerOne_eq]
    exact (Nat.mul_lt_mul_right unitsPerOne_pos).2 hlt)
  have hunits : unitsOfRank rank = n * unitsPerOne := by rw [hrank, ← hvalue, unitsPerOne_eq]
  exact ⟨rank, by rw [ofNat, ← hunits, ofUnits_unitsOfRank], hunits⟩

theorem IsShort.toRat?_ofNat {n : ℕ} (h : IsShort n) (hlt : n < 2 ^ 1024) :
    (ofNat n).toRat? = some (n : ℚ) := by
  obtain ⟨rank, hn, hunits⟩ := h.exists_ofNat hlt
  have hne : (unitsPerOne : ℚ) ≠ 0 := Nat.cast_ne_zero.2 unitsPerOne_pos.ne'
  rw [hn, toRat?_finite, hunits, signed, if_neg Bool.false_ne_true]
  push_cast
  rw [mul_div_cancel_right₀ _ hne]

theorem ofNat_zero : ofNat 0 = zero false := by
  have hunits : unitsOfRank 0 = 0 * unitsPerOne := by
    rw [unitsOfRank, significandOfRank, Nat.zero_sub, Nat.zero_mul, Nat.zero_mul]
  rw [ofNat, ← hunits]
  exact ofUnits_unitsOfRank false ⟨0, by decide⟩

/-! ## The operations on finite numbers -/

section Cases

variable (s t : Bool) (a b : Fin rankCount)

theorem finite_add_finite :
    finite s a + finite t b =
      if signed s (unitsOfRank a) + signed t (unitsOfRank b) = 0 then zero (s && t)
      else ofUnits (decide (signed s (unitsOfRank a) + signed t (unitsOfRank b) < 0))
        (signed s (unitsOfRank a) + signed t (unitsOfRank b)).natAbs 1 := by
  change add (finite s a) (finite t b) = _
  rw [add]

theorem finite_mul_finite :
    finite s a * finite t b =
      ofUnits (s != t) (unitsOfRank a * unitsOfRank b) unitsPerOne := by
  change mul (finite s a) (finite t b) = _
  rw [mul]

theorem finite_div_finite (h : b.val ≠ 0) :
    finite s a / finite t b =
      ofUnits (s != t) (unitsOfRank a * unitsPerOne) (unitsOfRank b) := by
  change div (finite s a) (finite t b) = _
  rw [div, if_neg h]

theorem infinity_add_finite : infinity s + finite t b = infinity s := rfl

theorem infinity_mul_finite (h : b.val ≠ 0) : infinity s * finite t b = infinity (s != t) :=
  if_neg h

theorem infinity_div_finite : infinity s / finite t b = infinity (s != t) := rfl

end Cases

/-! ## Sums and products of short numbers -/

theorem rank_ne_zero {rank : ℕ} (h : unitsOfRank rank ≠ 0) : rank ≠ 0 := by
  rintro rfl
  apply h
  rw [unitsOfRank, significandOfRank, Nat.zero_sub, Nat.zero_mul]

theorem unitsOfRank_ne_zero {rank : ℕ} (h : rank ≠ 0) : unitsOfRank rank ≠ 0 := by
  have hsignificand : significandOfRank rank ≠ 0 := by
    unfold significandOfRank exponentOfRank
    rw [binadeSize_eq]
    omega
  exact Nat.mul_ne_zero hsignificand (Nat.two_pow_pos _).ne'

section Operations

variable {a b : ℕ} (ha : IsShort a) (hb : IsShort b) (hlt : b < 2 ^ 1024)

include ha hb hlt

/-- The sum of short numbers is rounded once, and overflows where it must. -/
theorem ofNat_add : ofNat a + ofNat b = ofNat (a + b) := by
  obtain ⟨y, hy, hyunits⟩ := hb.exists_ofNat hlt
  rcases Nat.lt_or_ge a (2 ^ 1024) with halt | hage
  · obtain ⟨x, hx, hxunits⟩ := ha.exists_ofNat halt
    have hsum : signed false (unitsOfRank x) + signed false (unitsOfRank y) =
        (((a + b) * unitsPerOne : ℕ) : ℤ) := by
      rw [hxunits, hyunits, Nat.add_mul, Nat.cast_add]
      rfl
    rw [hx, hy, finite_add_finite, hsum, Int.natAbs_natCast]
    split
    · next hzero =>
      have hsum : a + b = 0 :=
        (Nat.mul_eq_zero.1 (Int.natCast_eq_zero.1 hzero)).resolve_right unitsPerOne_pos.ne'
      rw [hsum, ofNat_zero]
      rfl
    · rw [decide_eq_false (by omega), ofNat]
  · rw [ofNat_of_le hage, hy, ofNat_of_le (hage.trans (Nat.le_add_right _ _)),
      infinity_add_finite]

/-- The product of short numbers is rounded once, and overflows where it must. -/
theorem ofNat_mul (hpos : 0 < b) : ofNat a * ofNat b = ofNat (a * b) := by
  obtain ⟨y, hy, hyunits⟩ := hb.exists_ofNat hlt
  rcases Nat.lt_or_ge a (2 ^ 1024) with halt | hage
  · obtain ⟨x, hx, hxunits⟩ := ha.exists_ofNat halt
    have hunits : unitsOfRank x * unitsOfRank y = a * b * unitsPerOne * unitsPerOne := by
      rw [hxunits, hyunits]
      ring
    have hscale := ofUnits_mul_mul false (a * b * unitsPerOne) 1 unitsPerOne_pos
    rw [Nat.one_mul] at hscale
    rw [hx, hy, finite_mul_finite, hunits]
    exact hscale
  · have hne : y.val ≠ 0 := by
      apply rank_ne_zero
      rw [hyunits]
      exact (Nat.mul_pos hpos unitsPerOne_pos).ne'
    rw [ofNat_of_le hage, hy, ofNat_of_le (hage.trans (Nat.le_mul_of_pos_right _ hpos)),
      infinity_mul_finite _ _ _ hne]
    rfl

end Operations

/-! ## Digits and powers in a base that is a power of two -/

/-- The number that begins the digits of a short number is short. -/
theorem IsShort.of_append {k : ℕ} {front rest : List ℕ} (hrest : ∀ d ∈ rest, d < 2 ^ k)
    (h : IsShort (valueOfDigits (2 ^ k) (front ++ rest))) :
    IsShort (valueOfDigits (2 ^ k) front) := by
  induction rest using List.reverseRecOn with
  | nil => rwa [List.append_nil] at h
  | append_singleton rest d ih =>
    have hd : d < 2 ^ k := hrest d (by simp)
    rw [← List.append_assoc, valueOfDigits_append_singleton] at h
    have hdrop := h.div_two_pow k
    rw [Nat.add_comm, Nat.mul_comm, Nat.add_mul_div_left _ _ (Nat.two_pow_pos k),
      Nat.div_eq_of_lt hd, Nat.zero_add] at hdrop
    exact ih (fun d' hd' => hrest d' (by simp [hd'])) hdrop

/-- The digits of a short number are added up without any rounding. -/
theorem ofDigits_eq_ofNat {k : ℕ} (hk : k ≤ significandBits) {ds : List ℕ}
    (hds : ∀ d ∈ ds, d < 2 ^ k) (h : IsShort (valueOfDigits (2 ^ k) ds)) :
    ofDigits (2 ^ k) ds = ofNat (valueOfDigits (2 ^ k) ds) := by
  induction ds using List.reverseRecOn with
  | nil => exact ofNat_zero.symm
  | append_singleton ds d ih =>
    have hd : d < 2 ^ k := hds d (by simp)
    have hbase : 2 ^ k ≤ binadeSize := Nat.pow_le_pow_right (by decide) hk
    have hlt : binadeSize < 2 ^ 1024 := pow_lt_pow_right₀ one_lt_two (by decide)
    have hfront : IsShort (valueOfDigits (2 ^ k) ds) :=
      h.of_append fun d' hd' => by rwa [List.mem_singleton.1 hd']
    have ih := ih (fun d' hd' => hds d' (by simp [hd'])) hfront
    have hstep : ofDigits (2 ^ k) (ds ++ [d]) = ofDigits (2 ^ k) ds * ofNat (2 ^ k) + ofNat d :=
      List.foldl_append ..
    rw [valueOfDigits_append_singleton, hstep, ih,
      ofNat_mul hfront (isShort_two_pow k) (by omega) (Nat.two_pow_pos k),
      ofNat_add (hfront.mul_two_pow k) (isShort_of_le (by omega)) (by omega)]

theorem ofNat_two_pow_mul {i j : ℕ} (h : i + j < 1024) :
    ofNat (2 ^ i) * ofNat (2 ^ j) = ofNat (2 ^ (i + j)) := by
  have hlt : 2 ^ j < 2 ^ 1024 := pow_lt_pow_right₀ one_lt_two (by omega)
  rw [ofNat_mul (isShort_two_pow i) (isShort_two_pow j) hlt (Nat.two_pow_pos j), pow_add]

/-- Repeated squaring of a power of two rounds nowhere: neither the running product nor the square
passes the power to be found. -/
theorem powNatFrom_two_pow (i j f : ℕ) (h : i + j * f < 1024) :
    powNatFrom (ofNat (2 ^ i)) (ofNat (2 ^ j)) f = ofNat (2 ^ (i + j * f)) := by
  induction f using Nat.strong_induction_on generalizing i j with
  | _ f ih =>
    have hsplit : j * f = j * (f % 2) + 2 * j * (f / 2) := by
      conv_lhs => rw [← Nat.mod_add_div f 2]
      ring
    have hproduct : (if f % 2 = 1 then ofNat (2 ^ i) * ofNat (2 ^ j) else ofNat (2 ^ i)) =
        ofNat (2 ^ (i + j * (f % 2))) := by
      rcases Nat.mod_two_eq_zero_or_one f with hf | hf
      · simp [hf]
      · rw [hf] at hsplit
        rw [if_pos hf, hf, Nat.mul_one, ofNat_two_pow_mul (by omega)]
    rw [powNatFrom]
    simp only [hproduct]
    split
    · next hzero => rw [hsplit, hzero, Nat.mul_zero, Nat.add_zero]
    · next hne =>
      have hdouble : 2 * j ≤ 2 * j * (f / 2) := Nat.le_mul_of_pos_right _ (by omega)
      rw [ofNat_two_pow_mul (by omega), ← Nat.two_mul, ih _ (by omega) _ _ (by omega), hsplit,
        Nat.add_assoc]

theorem ofNat_one : ofNat 1 = one := by
  have hunits : unitsOfRank (1022 * binadeSize + binadeSize) = 1 * unitsPerOne := by
    rw [unitsOfRank_of_leading (by decide) (.inl le_rfl), binadeSize_eq_two_pow, ← pow_add,
      Nat.one_mul, unitsPerOne_eq, significandBits, unitHalvings]
  rw [ofNat, ← hunits]
  exact ofUnits_unitsOfRank false ⟨1022 * binadeSize + binadeSize, by decide⟩

theorem div_ofNat_one (x : Double) : x / ofNat 1 = x := by
  obtain ⟨y, hy, hunits⟩ := (isShort_two_pow 0).exists_ofNat
    (pow_lt_pow_right₀ one_lt_two (by decide))
  rw [pow_zero] at hy hunits
  rw [Nat.one_mul] at hunits
  have hne : unitsOfRank y ≠ 0 := by
    rw [hunits]
    exact unitsPerOne_pos.ne'
  rw [hy]
  cases x with
  | nan => rfl
  | infinity negative =>
    rw [infinity_div_finite, Bool.bne_false]
  | finite negative rank =>
    rw [finite_div_finite _ _ _ _ (rank_ne_zero hne), hunits, Bool.bne_false]
    exact ofUnits_unitsOfRank_mul negative rank unitsPerOne_pos

theorem powNat_two_pow {j f : ℕ} (h : j * f < 1024) :
    powNat (ofNat (2 ^ j)) f = ofNat (2 ^ (j * f)) := by
  have hfrom := powNatFrom_two_pow 0 j f (by omega)
  rwa [pow_zero, ofNat_one, Nat.zero_add] at hfrom

/-- Dividing a short number by a power of two only moves its binade. -/
theorem toRat?_ofNat_div {n j : ℕ} (h : IsShort n) (hlt : n < 2 ^ 1024) (hj : j < 1024) :
    (ofNat n / ofNat (2 ^ j)).toRat? = some ((n : ℚ) / (2 : ℚ) ^ j) := by
  obtain ⟨x, hx, hxunits⟩ := h.exists_ofNat hlt
  obtain ⟨y, hy, hyunits⟩ := (isShort_two_pow j).exists_ofNat (pow_lt_pow_right₀ one_lt_two hj)
  have hyne : unitsOfRank y ≠ 0 := by
    rw [hyunits]
    exact (Nat.mul_pos (Nat.two_pow_pos j) unitsPerOne_pos).ne'
  have hone : 2 ^ (unitHalvings - j) * 2 ^ j = unitsPerOne := by
    rw [← pow_add, unitsPerOne_eq, Nat.sub_add_cancel (by rw [unitHalvings]; omega)]
  obtain ⟨m, e, hm, hvalue⟩ := h.mul_two_pow (unitHalvings - j)
  have hbound : m * 2 ^ e < 2 ^ 1024 * unitsPerOne := by
    rw [← hvalue, ← hone]
    exact Nat.mul_lt_mul_of_lt_of_le hlt (Nat.le_mul_of_pos_right _ (Nat.two_pow_pos j))
      (Nat.mul_pos (Nat.two_pow_pos _) (Nat.two_pow_pos _))
  obtain ⟨z, hz⟩ := exists_rank hm hbound
  rw [← hvalue] at hz
  have hquotient : unitsOfRank x * unitsPerOne = unitsOfRank z * unitsOfRank y := by
    rw [hxunits, hyunits, hz, ← hone]
    ring
  have hdiv : finite false x / finite false y = finite false z := by
    rw [finite_div_finite _ _ _ _ (rank_ne_zero hyne), hquotient]
    exact ofUnits_unitsOfRank_mul false z (Nat.pos_of_ne_zero hyne)
  rw [hx, hy, hdiv, toRat?_finite, hz, signed, if_neg Bool.false_ne_true, ← hone]
  push_cast
  have hpow : (2 : ℚ) ^ (unitHalvings - j) ≠ 0 := pow_ne_zero _ two_ne_zero
  rw [mul_comm ((2 : ℚ) ^ (unitHalvings - j)), mul_div_mul_right _ _ hpow]

/-! ## Signs -/

theorem toRat?_neg {x : Double} {q : ℚ} (h : x.toRat? = some q) : (-x).toRat? = some (-q) := by
  obtain ⟨negative, rank, rfl, rfl⟩ := exists_finite_of_toRat? h
  show (finite (!negative) rank).toRat? = _
  rw [toRat?_finite, ← neg_div, ← Int.cast_neg]
  cases negative <;> simp [signed]

end Double

end RadixCalc
