import RadixCalc.Proofs.Double.Nearest

/-!
# The error of many roundings

A value that differs from another by `k` roundings lies within the factor `spread ^ k` of it, on
either side. Counted in this way the errors of the operands add up, in a product and in a quotient
as well as along a computation, and every operation adds one of its own.

* `Double.Within` is this relation between values and `Double.Near` between a double and a value.
* `Double.near_ofUnits` is one rounding more; `Near.add`, `Near.mul` and `Near.div` are the
  operations.
* `Double.near_ofDigits` adds up digits.
* `Double.Within.abs_sub_le` turns up to `roundingLimit` roundings into one part in `10 ^ 12`.

The exact values have to keep clear of the ends of the range (`Double.InRange`): below it a rounding
may lose every digit, above it there is no number.
-/

namespace RadixCalc

namespace Double

-- The number of units in one and the greatest binade are never to be computed.
attribute [local irreducible] unitsPerOne topExponent

/-! ## Values that differ by a number of roundings -/

theorem cast_binadeSize : (binadeSize : ℚ) = 4503599627370496 := by
  rw [binadeSize_eq]
  norm_num

/-- Neighbouring magnitudes differ by this factor at most, away from the smallest ones. -/
def spread : ℚ := 1 + 1 / binadeSize

theorem one_lt_spread : 1 < spread := by
  rw [spread, binadeSize_eq]
  norm_num

theorem spread_pow_pos (k : ℕ) : 0 < spread ^ k :=
  pow_pos (zero_lt_one.trans one_lt_spread) k

theorem one_le_spread_pow (k : ℕ) : 1 ≤ spread ^ k :=
  one_le_pow₀ one_lt_spread.le

/-- The greatest number of roundings that are followed here. -/
def roundingLimit : ℕ := 4096

/-- The part by which roundings change a value is hardly more than the sum of their parts. -/
theorem spread_pow_le_one_add {k : ℕ} {part : ℚ} (hpart : 0 ≤ part)
    (hk : k * (1 + part) ≤ part * binadeSize) : spread ^ k ≤ 1 + part := by
  have hsize : (0 : ℚ) < binadeSize := by rw [cast_binadeSize]; norm_num
  have hbernoulli : 1 + (k : ℚ) * (-1 / binadeSize) ≤ (1 + -1 / binadeSize) ^ k :=
    one_add_mul_le_pow (by rw [cast_binadeSize]; norm_num) k
  have hinverse : spread ^ k * (1 + -1 / binadeSize) ^ k ≤ 1 := by
    rw [← mul_pow]
    apply pow_le_one₀ <;>
    · rw [spread, cast_binadeSize]
      norm_num
  have hshare : 1 ≤ (1 + part) * (1 + k * (-1 / binadeSize)) := by
    have hquotient : k * (1 + part) / binadeSize ≤ part := (div_le_iff₀ hsize).2 hk
    calc (1 : ℚ) ≤ 1 + part - k * (1 + part) / binadeSize := by linarith
      _ = (1 + part) * (1 + k * (-1 / binadeSize)) := by ring
  calc spread ^ k ≤ spread ^ k * ((1 + part) * (1 + k * (-1 / binadeSize))) :=
        le_mul_of_one_le_right (spread_pow_pos k).le hshare
    _ = (1 + part) * (spread ^ k * (1 + k * (-1 / binadeSize))) := by ring
    _ ≤ (1 + part) * 1 := by
        refine mul_le_mul_of_nonneg_left (le_trans ?_ hinverse) (by linarith)
        exact mul_le_mul_of_nonneg_left hbernoulli (spread_pow_pos k).le
    _ = 1 + part := mul_one _

/-- Thousands of roundings change a value by less than one part in `10 ^ 12`. -/
theorem spread_pow_le {k : ℕ} (hk : k ≤ roundingLimit) : spread ^ k ≤ 1 + 1 / 10 ^ 12 := by
  have hcast : (k : ℚ) ≤ 4096 := by exact_mod_cast hk
  apply spread_pow_le_one_add (by norm_num)
  rw [cast_binadeSize]
  linarith

/-- The values `v` and `q` differ by `k` roundings at most. -/
structure Within (k : ℕ) (v q : ℚ) : Prop where
  le_mul : q ≤ v * spread ^ k
  mul_le : v ≤ q * spread ^ k

namespace Within

variable {j k : ℕ} {v w p q : ℚ}

theorem refl (k : ℕ) (hq : 0 ≤ q) : Within k q q :=
  ⟨le_mul_of_one_le_right hq (one_le_spread_pow k), le_mul_of_one_le_right hq (one_le_spread_pow k)⟩

theorem nonneg (h : Within k v q) (hq : 0 ≤ q) : 0 ≤ v :=
  nonneg_of_mul_nonneg_left (hq.trans h.le_mul) (spread_pow_pos k)

theorem mono (h : Within j v q) (hq : 0 ≤ q) (hjk : j ≤ k) : Within k v q := by
  have hpow : spread ^ j ≤ spread ^ k := pow_le_pow_right₀ one_lt_spread.le hjk
  exact ⟨h.le_mul.trans (mul_le_mul_of_nonneg_left hpow (h.nonneg hq)),
    h.mul_le.trans (mul_le_mul_of_nonneg_left hpow hq)⟩

theorem trans (h : Within j v w) (h' : Within k w q) : Within (j + k) v q := by
  have hj := (spread_pow_pos j).le
  have hk := (spread_pow_pos k).le
  constructor
  · calc q ≤ w * spread ^ k := h'.le_mul
      _ ≤ v * spread ^ j * spread ^ k := mul_le_mul_of_nonneg_right h.le_mul hk
      _ = v * spread ^ (j + k) := by rw [pow_add, mul_assoc]
  · calc v ≤ w * spread ^ j := h.mul_le
      _ ≤ q * spread ^ k * spread ^ j := mul_le_mul_of_nonneg_right h'.mul_le hj
      _ = q * spread ^ (j + k) := by rw [pow_add]; ring

theorem add (h : Within k v p) (h' : Within k w q) : Within k (v + w) (p + q) :=
  ⟨by rw [add_mul]; exact add_le_add h.le_mul h'.le_mul,
    by rw [add_mul]; exact add_le_add h.mul_le h'.mul_le⟩

theorem mul (h : Within j v p) (h' : Within k w q) (hp : 0 ≤ p) (hq : 0 ≤ q) :
    Within (j + k) (v * w) (p * q) := by
  have hv := h.nonneg hp
  have hw := h'.nonneg hq
  constructor
  · calc p * q ≤ v * spread ^ j * (w * spread ^ k) :=
        mul_le_mul h.le_mul h'.le_mul hq (mul_nonneg hv (spread_pow_pos j).le)
      _ = v * w * spread ^ (j + k) := by rw [pow_add]; ring
  · calc v * w ≤ p * spread ^ j * (q * spread ^ k) :=
        mul_le_mul h.mul_le h'.mul_le hw (mul_nonneg hp (spread_pow_pos j).le)
      _ = p * q * spread ^ (j + k) := by rw [pow_add]; ring

theorem inv (h : Within k v q) (hq : 0 < q) : Within k v⁻¹ q⁻¹ := by
  have hs := spread_pow_pos k
  have hv : 0 < v := pos_of_mul_pos_left (hq.trans_le h.le_mul) hs.le
  constructor
  · rw [← div_eq_inv_mul, inv_eq_one_div, div_le_div_iff₀ hq hv, one_mul, mul_comm]
    exact h.mul_le
  · rw [← div_eq_inv_mul, inv_eq_one_div, div_le_div_iff₀ hv hq, one_mul, mul_comm]
    exact h.le_mul

theorem div (h : Within j v p) (h' : Within k w q) (hp : 0 ≤ p) (hq : 0 < q) :
    Within (j + k) (v / w) (p / q) := by
  rw [div_eq_mul_inv, div_eq_mul_inv]
  exact h.mul (h'.inv hq) hp (inv_pos.2 hq).le

/-- As a difference, the roundings are a part of the value. -/
theorem abs_sub_le (h : Within k v q) (hq : 0 ≤ q) (hk : k ≤ roundingLimit) :
    |v - q| ≤ 1 / 10 ^ 12 * q := by
  have hs := spread_pow_le hk
  have hv := h.nonneg hq
  have hupper : q * spread ^ k ≤ q * (1 + 1 / 10 ^ 12) := mul_le_mul_of_nonneg_left hs hq
  have hlower : v * spread ^ k ≤ v * (1 + 1 / 10 ^ 12) := mul_le_mul_of_nonneg_left hs hv
  have := h.le_mul
  have := h.mul_le
  rw [abs_le]
  constructor <;> nlinarith

end Within

/-! ## Doubles near an exact value -/

/-- A double with no sign that differs from an exact value by `k` roundings at most. -/
def Near (k : ℕ) (x : Double) (q : ℚ) : Prop :=
  ∃ rank : Fin rankCount, x = finite false rank ∧
    Within k ((unitsOfRank rank : ℚ) / (unitsPerOne : ℚ)) q

theorem Near.exists_toRat? {k : ℕ} {x : Double} {q : ℚ} (h : Near k x q) :
    ∃ v, x.toRat? = some v ∧ Within k v q := by
  obtain ⟨rank, rfl, hwithin⟩ := h
  refine ⟨_, toRat?_finite _ _, ?_⟩
  rwa [signed, if_neg Bool.false_ne_true, Int.cast_natCast]

theorem Near.mono {j k : ℕ} {x : Double} {q : ℚ} (h : Near j x q) (hq : 0 ≤ q) (hjk : j ≤ k) :
    Near k x q := by
  obtain ⟨rank, hx, hwithin⟩ := h
  exact ⟨rank, hx, hwithin.mono hq hjk⟩

/-- A short number is near itself. -/
theorem near_ofNat {n : ℕ} (h : IsShort n) (hlt : n < 2 ^ 1024) : Near 0 (ofNat n) n := by
  obtain ⟨rank, hn, hunits⟩ := h.exists_ofNat hlt
  have hne : (unitsPerOne : ℚ) ≠ 0 := Nat.cast_ne_zero.2 unitsPerOne_pos.ne'
  refine ⟨rank, hn, ?_⟩
  rw [hunits, Nat.cast_mul, mul_div_cancel_right₀ _ hne]
  exact .refl 0 (Nat.cast_nonneg n)

/-- Exact values whose roundings stay clear of both ends of the range: zero, or from `2 ^ -1000` to
`2 ^ 1023`. -/
def InRange (q : ℚ) : Prop :=
  q = 0 ∨ 1 ≤ q * 2 ^ 1000 ∧ q ≤ 2 ^ 1023

theorem InRange.nonneg {q : ℚ} (h : InRange q) : 0 ≤ q := by
  rcases h with rfl | ⟨h, -⟩
  · exact le_rfl
  · exact nonneg_of_mul_nonneg_left (zero_le_one.trans h) (pow_pos two_pos _)

theorem inRange_natCast {n : ℕ} (h : n ≤ 2 ^ 1023) : InRange n := by
  rcases Nat.eq_zero_or_pos n with rfl | hpos
  · exact .inl Nat.cast_zero
  · refine .inr ⟨?_, by exact_mod_cast h⟩
    exact one_le_mul_of_one_le_of_one_le (Nat.one_le_cast.2 hpos) (one_le_pow₀ one_le_two)

section Quotient

variable {num den : ℕ} (hden : 0 < den)

include hden

/-- One rounding, away from the smallest magnitudes and from overflow. -/
theorem exists_ofUnits_within (hlow : binadeSize * den ≤ num) (hhigh : num ≤ greatestUnits * den)
    (negative : Bool) :
    ∃ rank : Fin rankCount, ofUnits negative num den = finite negative rank ∧
      Within 1 ((unitsOfRank rank : ℚ) / (unitsPerOne : ℚ))
        ((num : ℚ) / ((den * unitsPerOne : ℕ) : ℚ)) := by
  obtain ⟨rank, hrank, hle, hge⟩ := exists_ofUnits_near hden hlow hhigh negative
  have hunit : (0 : ℚ) < unitsPerOne := Nat.cast_pos.2 unitsPerOne_pos
  have hden : (0 : ℚ) < den := Nat.cast_pos.2 hden
  rw [binadeSize_eq] at hle hge
  have hle : 2 * 4503599627370496 * ((unitsOfRank rank : ℚ) * den) ≤
      (2 * 4503599627370496 + 1) * num := by exact_mod_cast hle
  have hge : (9007199254740991 : ℚ) * num ≤ 2 * 4503599627370496 * (unitsOfRank rank * den) := by
    exact_mod_cast hge
  refine ⟨rank, hrank, ?_, ?_⟩
  · rw [div_mul_eq_mul_div, Nat.cast_mul, ← div_div, div_le_div_iff_of_pos_right hunit,
      div_le_iff₀ hden, pow_one, spread, cast_binadeSize]
    linarith
  · rw [div_mul_eq_mul_div, Nat.cast_mul, ← div_div, div_le_div_iff_of_pos_right hunit,
      le_div_iff₀ hden, pow_one, spread, cast_binadeSize]
    linarith

variable {k : ℕ} {q : ℚ} (h : Within k ((num : ℚ) / ((den * unitsPerOne : ℕ) : ℚ)) q)
  (hk : k ≤ roundingLimit)

include h hk

theorem binadeSize_mul_le_of_within (hq : 1 ≤ q * 2 ^ 1000) : binadeSize * den ≤ num := by
  have hunits : (unitsPerOne : ℚ) = 2 ^ 1000 * 2 ^ 74 := by
    rw [unitsPerOne_eq, Nat.cast_pow, ← pow_add]
    rfl
  have hbig : (0 : ℚ) < 2 ^ 1000 := pow_pos two_pos _
  have hle := h.le_mul.trans (mul_le_mul_of_nonneg_left (spread_pow_le hk)
    (h.nonneg (pos_of_mul_pos_left (zero_lt_one.trans_le hq) hbig.le).le))
  rw [Nat.cast_mul, hunits] at hle
  generalize (2 : ℚ) ^ 1000 = big at *
  have hcast : (binadeSize : ℚ) * den ≤ num := by
    rw [cast_binadeSize]
    have hden : (0 : ℚ) < den := Nat.cast_pos.2 hden
    rw [div_mul_eq_mul_div, le_div_iff₀ (by positivity)] at hle
    nlinarith
  exact_mod_cast hcast

theorem le_greatestUnits_mul_of_within (hq₀ : 0 ≤ q) (hq : q ≤ 2 ^ 1023) :
    num ≤ greatestUnits * den := by
  have hunits : (2 : ℚ) ^ 1023 * unitsPerOne = binadeSize * 2 ^ topExponent := by
    rw [unitsPerOne_eq, binadeSize_eq_two_pow, topExponent_eq, Nat.cast_pow, Nat.cast_pow,
      Nat.cast_two, ← pow_add, ← pow_add]
    rfl
  have htop : (greatestUnits : ℚ) = (2 * 4503599627370496 - 1) * 2 ^ topExponent := by
    rw [greatestUnits, binadeSize_eq]
    push_cast
    norm_num
  have hpos : (0 : ℚ) < den * unitsPerOne :=
    mul_pos (Nat.cast_pos.2 hden) (Nat.cast_pos.2 unitsPerOne_pos)
  have hle := h.mul_le.trans (mul_le_mul_of_nonneg_left (spread_pow_le hk) hq₀)
  rw [Nat.cast_mul, div_le_iff₀ hpos] at hle
  have hcast : (num : ℚ) ≤ greatestUnits * den := by
    calc (num : ℚ) ≤ 2 ^ 1023 * (1 + 1 / 10 ^ 12) * (den * unitsPerOne) := by
          refine hle.trans (mul_le_mul_of_nonneg_right ?_ hpos.le)
          exact mul_le_mul_of_nonneg_right hq (by norm_num)
      _ = (1 + 1 / 10 ^ 12) * 4503599627370496 * 2 ^ topExponent * den := by
          rw [mul_assoc _ _ ((2 : ℚ) ^ topExponent), ← cast_binadeSize, ← hunits]
          generalize (2 : ℚ) ^ 1023 = big
          ring
      _ ≤ greatestUnits * den := by
          rw [htop]
          gcongr
          norm_num
  exact_mod_cast hcast

/-- Rounding a quotient is one rounding more. -/
theorem near_ofUnits (hq : InRange q) : Near (k + 1) (ofUnits false num den) q := by
  rcases hq with rfl | ⟨hlow, hhigh⟩
  · -- Only zero differs from zero by a number of roundings.
    have hle := h.mul_le
    have hpos : (0 : ℚ) < ((den * unitsPerOne : ℕ) : ℚ) :=
      Nat.cast_pos.2 (Nat.mul_pos hden unitsPerOne_pos)
    rw [zero_mul, div_le_iff₀ hpos, zero_mul] at hle
    obtain rfl : num = 0 := Nat.cast_eq_zero.1 (le_antisymm hle (Nat.cast_nonneg num))
    have hunits : unitsOfRank 0 = 0 := by simp [unitsOfRank, significandOfRank]
    have hzero := ofUnits_unitsOfRank_mul false ⟨0, by decide⟩ hden
    rw [hunits, Nat.zero_mul] at hzero
    refine ⟨_, hzero, ?_⟩
    rw [hunits, Nat.cast_zero, zero_div]
    exact .refl _ le_rfl
  · have hq : 0 ≤ q := InRange.nonneg (.inr ⟨hlow, hhigh⟩)
    obtain ⟨rank, hrank, hwithin⟩ := exists_ofUnits_within hden
      (binadeSize_mul_le_of_within hden h hk hlow)
      (le_greatestUnits_mul_of_within hden h hk hq hhigh) false
    exact ⟨rank, hrank, Nat.add_comm 1 k ▸ hwithin.trans h⟩

end Quotient

/-! ## The operations -/

theorem finite_false_add_finite_false (a b : Fin rankCount) :
    finite false a + finite false b = ofUnits false (unitsOfRank a + unitsOfRank b) 1 := by
  have hsum : signed false (unitsOfRank a) + signed false (unitsOfRank b) =
      ((unitsOfRank a + unitsOfRank b : ℕ) : ℤ) := (Nat.cast_add _ _).symm
  rw [finite_add_finite, hsum, Int.natAbs_natCast]
  split
  · next hzero =>
    have hunits : unitsOfRank 0 = 0 := by simp [unitsOfRank, significandOfRank]
    rw [Int.natCast_eq_zero.1 hzero, ← hunits]
    exact (ofUnits_unitsOfRank false ⟨0, by decide⟩).symm
  · rw [decide_eq_false (by omega)]

section Operations

variable {j k : ℕ} {x y : Double} {p q : ℚ}

theorem Near.add (hx : Near k x p) (hy : Near k y q) (hsum : InRange (p + q))
    (hk : k ≤ roundingLimit) : Near (k + 1) (x + y) (p + q) := by
  obtain ⟨a, rfl, ha⟩ := hx
  obtain ⟨b, rfl, hb⟩ := hy
  rw [finite_false_add_finite_false]
  refine near_ofUnits one_pos ?_ hk hsum
  rw [Nat.one_mul, Nat.cast_add, add_div]
  exact ha.add hb

theorem Near.mul (hx : Near j x p) (hy : Near k y q) (hp : 0 ≤ p) (hq : 0 ≤ q)
    (hproduct : InRange (p * q)) (hk : j + k ≤ roundingLimit) :
    Near (j + k + 1) (x * y) (p * q) := by
  obtain ⟨a, rfl, ha⟩ := hx
  obtain ⟨b, rfl, hb⟩ := hy
  rw [finite_mul_finite]
  refine near_ofUnits unitsPerOne_pos ?_ hk hproduct
  rw [Nat.cast_mul, Nat.cast_mul, mul_div_mul_comm]
  exact ha.mul hb hp hq

theorem Near.div (hx : Near j x p) (hy : Near k y q) (hp : 0 ≤ p) (hq : 0 < q)
    (hquotient : InRange (p / q)) (hk : j + k ≤ roundingLimit) :
    Near (j + k + 1) (x / y) (p / q) := by
  obtain ⟨a, rfl, ha⟩ := hx
  obtain ⟨b, rfl, hb⟩ := hy
  have hunit : (unitsPerOne : ℚ) ≠ 0 := Nat.cast_ne_zero.2 unitsPerOne_pos.ne'
  have hb0 : unitsOfRank b ≠ 0 := by
    intro hzero
    have hle := hb.le_mul
    rw [hzero, Nat.cast_zero, zero_div, zero_mul] at hle
    exact absurd hq (not_lt.2 hle)
  rw [finite_div_finite _ _ _ _ (rank_ne_zero hb0)]
  refine near_ofUnits (Nat.pos_of_ne_zero hb0) ?_ hk hquotient
  rw [Nat.cast_mul, Nat.cast_mul, mul_div_mul_right _ _ hunit, ← div_div_div_cancel_right₀ hunit]
  exact ha.div hb hp hq

end Operations

/-! ## Digits -/

theorem isShort_and_lt_of_le {n : ℕ} (hn : n ≤ 36) : IsShort n ∧ n < 2 ^ 1024 := by
  have hpow : 2 ^ 6 < 2 ^ 1024 := pow_lt_pow_right₀ one_lt_two (by decide)
  exact ⟨isShort_of_le (hn.trans (by decide)), by omega⟩

/-- Adding up digits rounds twice for each of them. -/
theorem near_ofDigits {base : ℕ} (hb : 2 ≤ base ∧ base ≤ 36) {ds : List ℕ}
    (hds : ∀ d ∈ ds, d < base) (hlen : 2 * ds.length ≤ roundingLimit)
    (hle : valueOfDigits base ds ≤ 2 ^ 1023) :
    Near (2 * ds.length) (ofDigits base ds) (valueOfDigits base ds) := by
  induction ds using List.reverseRecOn with
  | nil =>
    have hzero := near_ofNat (isShort_and_lt_of_le (Nat.zero_le 36)).1
      (isShort_and_lt_of_le (Nat.zero_le 36)).2
    rw [ofNat_zero] at hzero
    exact hzero
  | append_singleton ds d ih =>
    have hd : d < base := hds d (by simp)
    rw [List.length_append, List.length_singleton] at hlen ⊢
    rw [valueOfDigits_append_singleton] at hle ⊢
    have hfront : valueOfDigits base ds ≤ valueOfDigits base ds * base :=
      Nat.le_mul_of_pos_right _ (by omega)
    have hstep : ofDigits base (ds ++ [d]) = ofDigits base ds * ofNat base + ofNat d :=
      List.foldl_append ..
    have ih := ih (fun d' hd' => hds d' (by simp [hd'])) (by omega) (by omega)
    obtain ⟨hbase, hbase'⟩ := isShort_and_lt_of_le hb.2
    obtain ⟨hdigit, hdigit'⟩ := isShort_and_lt_of_le (n := d) (by omega)
    have hproduct : Near (2 * ds.length + 1) (ofDigits base ds * ofNat base)
        ((valueOfDigits base ds * base : ℕ) : ℚ) := by
      rw [Nat.cast_mul]
      refine ih.mul (near_ofNat hbase hbase') (Nat.cast_nonneg _) (Nat.cast_nonneg _) ?_ (by omega)
      rw [← Nat.cast_mul]
      exact inRange_natCast (by omega)
    have hsum := hproduct.add ((near_ofNat hdigit hdigit').mono (Nat.cast_nonneg d)
      (Nat.zero_le _)) (by rw [← Nat.cast_add]; exact inRange_natCast hle) (by omega)
    rw [hstep, Nat.cast_add]
    exact hsum

end Double

end RadixCalc
