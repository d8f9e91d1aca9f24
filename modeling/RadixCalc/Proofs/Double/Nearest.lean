import RadixCalc.Proofs.Double.Exact

/-!
# The error of one rounding

A quotient is rounded to the significand that lies nearest to it in the binade of the quotient. So a
rounding moves it by half a unit in the last place at most, and where it lies neither among the
smallest magnitudes nor beyond the greatest, by one part in `2 ^ 53` at most.

* `two_mul_divNearestEven_mul_le` and `two_mul_le_divNearestEven_mul` say so of whole numbers.
* `Double.lt_mul_binade` and `Double.binade_mul_le` hold a quotient between the ends of its binade.
* `Double.exists_ofUnits` is the significand of the result; up to `Double.greatestUnits` nothing
  overflows, a carry into the next binade included.
* `Double.exists_ofUnits_near` is the bound, and `Double.exists_ofNat_eq` says that whole numbers
  stay whole.
* `Double.ofUnits_tie` and `Double.ofNat_tie` are the rule for ties.
-/

namespace RadixCalc

/-! ## One rounding -/

section NearestEven

variable (num den : ℕ)

/-- The integer nearest to a quotient lies within a half of it. -/
theorem two_mul_divNearestEven_mul_le :
    2 * (divNearestEven num den * den) ≤ 2 * num + den := by
  have hsplit := Nat.div_add_mod num den
  unfold divNearestEven
  simp only
  split
  · rw [Nat.mul_comm (num / den)]
    omega
  · rw [Nat.add_mul, Nat.mul_comm (num / den)]
    omega

variable {den}

theorem two_mul_le_divNearestEven_mul (h : 0 < den) :
    2 * num ≤ 2 * (divNearestEven num den * den) + den := by
  have hsplit := Nat.div_add_mod num den
  have hrest := Nat.mod_lt num h
  unfold divNearestEven
  simp only
  split
  · rw [Nat.mul_comm (num / den)]
    omega
  · rw [Nat.add_mul, Nat.mul_comm (num / den)]
    omega

theorem divNearestEven_le {bound : ℕ} (h : 0 < den) (hle : num ≤ bound * den) :
    divNearestEven num den ≤ bound := by
  by_contra hlt
  have hnext : (bound + 1) * den ≤ divNearestEven num den * den :=
    Nat.mul_le_mul_right _ (Nat.lt_of_not_le hlt)
  have hhalf := two_mul_divNearestEven_mul_le num den
  rw [Nat.add_mul] at hnext
  omega

end NearestEven

namespace Double

attribute [local irreducible] unitsPerOne

/-- A rounded significand with the leading bit of its binade, which may have been carried into the
next, names its rank. -/
theorem unitsOfRank_of_carried {m e : ℕ} (hm : m ≤ 2 * binadeSize) (h : binadeSize ≤ m ∨ e = 0) :
    unitsOfRank (e * binadeSize + m) = m * 2 ^ e := by
  rcases Nat.lt_or_eq_of_le hm with hlt | rfl
  · exact unitsOfRank_of_leading hlt h
  · have hnext : e * binadeSize + 2 * binadeSize = (e + 1) * binadeSize + binadeSize := by ring
    rw [hnext, unitsOfRank_of_leading (by decide) (.inl le_rfl), pow_succ]
    ring

/-- The exponent of the highest binade. -/
def topExponent : ℕ := 2045

theorem topExponent_eq : topExponent = 2045 := rfl

-- A power with this exponent is never to be computed.
attribute [local irreducible] topExponent

/-- The number of units in the greatest finite magnitude. -/
def greatestUnits : ℕ := (2 * binadeSize - 1) * 2 ^ topExponent

section Binade

variable (num : ℕ) {den : ℕ} (hden : 0 < den)

include hden

/-- A quotient in its binade is at most twice the size of a binade. -/
theorem lt_mul_binade : num < 2 * binadeSize * (den * 2 ^ binadeExponent (num / den)) := by
  have hlog : num / den < 2 ^ ((num / den).log2 + 1) := Nat.lt_log2_self
  have hle : (num / den).log2 + 1 ≤ (significandBits + 1) + binadeExponent (num / den) := by
    unfold binadeExponent
    omega
  have hlt := hlog.trans_le (Nat.pow_le_pow_right two_pos hle)
  rw [pow_add, pow_succ, ← binadeSize_eq_two_pow, Nat.div_lt_iff_lt_mul hden] at hlt
  calc num < binadeSize * 2 * 2 ^ binadeExponent (num / den) * den := hlt
    _ = 2 * binadeSize * (den * 2 ^ binadeExponent (num / den)) := by ring

/-- Above the smallest magnitudes a quotient has the leading bit of its binade. -/
theorem binade_mul_le (h : binadeSize * den ≤ num ∨ binadeExponent (num / den) ≠ 0) :
    binadeSize * (den * 2 ^ binadeExponent (num / den)) ≤ num := by
  have hne : num / den ≠ 0 := by
    intro hzero
    rcases h with h | h
    · have hlt := (Nat.div_eq_zero_iff_lt hden).1 hzero
      have hpos : den ≤ binadeSize * den := Nat.le_mul_of_pos_left _ (by decide)
      omega
    · rw [hzero] at h
      exact h (by simp [binadeExponent])
  have hlog : significandBits ≤ (num / den).log2 := by
    rcases h with h | h
    · rw [Nat.le_log2 hne, ← binadeSize_eq_two_pow]
      exact (Nat.le_div_iff_mul_le hden).2 h
    · unfold binadeExponent at h
      omega
  have hself := Nat.log2_self_le hne
  have hsum : (num / den).log2 = significandBits + binadeExponent (num / den) := by
    unfold binadeExponent
    omega
  rw [hsum, pow_add, ← binadeSize_eq_two_pow, Nat.le_div_iff_mul_le hden] at hself
  calc binadeSize * (den * 2 ^ binadeExponent (num / den))
      = binadeSize * 2 ^ binadeExponent (num / den) * den := by ring
    _ ≤ num := hself

/-- The nearest rank is that of the rounded significand in the binade of the quotient. -/
theorem unitsOfRank_nearestRank :
    unitsOfRank (nearestRank num den) =
      divNearestEven num (den * 2 ^ binadeExponent (num / den)) *
        2 ^ binadeExponent (num / den) := by
  have hunit : 0 < den * 2 ^ binadeExponent (num / den) := Nat.mul_pos hden (Nat.two_pow_pos _)
  have hle : divNearestEven num (den * 2 ^ binadeExponent (num / den)) ≤ 2 * binadeSize :=
    divNearestEven_le num hunit (lt_mul_binade num hden).le
  have hleading : binadeSize ≤ divNearestEven num (den * 2 ^ binadeExponent (num / den)) ∨
      binadeExponent (num / den) = 0 := by
    by_cases hzero : binadeExponent (num / den) = 0
    · exact .inr hzero
    · left
      refine le_trans ?_ (le_divNearestEven num _)
      exact (Nat.le_div_iff_mul_le hunit).2 (binade_mul_le num hden (.inr hzero))
  exact unitsOfRank_of_carried hle hleading

variable {num}

/-- A quotient that does not pass the greatest magnitude is rounded to a finite number, whose
significand is the quotient in units of its binade, rounded. -/
theorem exists_ofUnits (h : num ≤ greatestUnits * den) (negative : Bool) :
    ∃ rank : Fin rankCount, ofUnits negative num den = finite negative rank ∧
      unitsOfRank rank = divNearestEven num (den * 2 ^ binadeExponent (num / den)) *
        2 ^ binadeExponent (num / den) := by
  have hlt := lt_mul_binade num hden
  have hlead := binade_mul_le num hden
  have htop : binadeExponent (num / den) ≤ topExponent := by
    by_contra hlow
    have hle := hlead (.inr (by omega))
    have hpow : 2 ^ (topExponent + 1) ≤ 2 ^ binadeExponent (num / den) :=
      Nat.pow_le_pow_right two_pos (by omega)
    have hnext : binadeSize * (den * 2 ^ (topExponent + 1)) ≤ num :=
      (Nat.mul_le_mul_left _ (Nat.mul_le_mul_left _ hpow)).trans hle
    have hpos : 0 < 2 ^ topExponent * den := Nat.mul_pos (Nat.two_pow_pos _) hden
    rw [greatestUnits, Nat.mul_assoc] at h
    have heq : binadeSize * (den * 2 ^ (topExponent + 1)) =
        2 * binadeSize * (2 ^ topExponent * den) := by rw [pow_succ]; ring
    have hless : (2 * binadeSize - 1) * (2 ^ topExponent * den) <
        2 * binadeSize * (2 ^ topExponent * den) :=
      Nat.mul_lt_mul_of_pos_right (by decide) hpos
    omega
  have hunit : 0 < den * 2 ^ binadeExponent (num / den) := Nat.mul_pos hden (Nat.two_pow_pos _)
  have hle : divNearestEven num (den * 2 ^ binadeExponent (num / den)) ≤ 2 * binadeSize :=
    divNearestEven_le num hunit hlt.le
  have hfull : binadeExponent (num / den) = topExponent →
      divNearestEven num (den * 2 ^ binadeExponent (num / den)) ≤ 2 * binadeSize - 1 := by
    intro hexponent
    apply divNearestEven_le num hunit
    rw [hexponent, Nat.mul_comm den, ← Nat.mul_assoc]
    exact h
  have hrank : nearestRank num den < rankCount := by
    rw [nearestRank]
    simp only [Nat.mul_comm (binadeExponent _)]
    rw [topExponent_eq] at htop hfull
    rw [rankCount, binadeSize_eq] at *
    omega
  exact ⟨⟨_, hrank⟩, by rw [ofUnits, ofRank, dif_pos hrank], unitsOfRank_nearestRank num hden⟩

/-- Away from the smallest magnitudes a quotient is rounded by no more than one part in
`2 ^ 53`. -/
theorem exists_ofUnits_near (hlow : binadeSize * den ≤ num) (hhigh : num ≤ greatestUnits * den)
    (negative : Bool) :
    ∃ rank : Fin rankCount, ofUnits negative num den = finite negative rank ∧
      2 * binadeSize * (unitsOfRank rank * den) ≤ (2 * binadeSize + 1) * num ∧
      (2 * binadeSize - 1) * num ≤ 2 * binadeSize * (unitsOfRank rank * den) := by
  obtain ⟨rank, hrank, hunits⟩ := exists_ofUnits hden hhigh negative
  have hunit := binade_mul_le num hden (.inl hlow)
  have habove := two_mul_divNearestEven_mul_le num (den * 2 ^ binadeExponent (num / den))
  have hbelow := two_mul_le_divNearestEven_mul num
    (Nat.mul_pos hden (Nat.two_pow_pos (binadeExponent (num / den))))
  have hproduct : unitsOfRank rank * den =
      divNearestEven num (den * 2 ^ binadeExponent (num / den)) *
        (den * 2 ^ binadeExponent (num / den)) := by
    rw [hunits]
    ring
  rw [← hproduct] at habove hbelow
  refine ⟨rank, hrank, ?_, ?_⟩
  · rw [binadeSize_eq] at *
    omega
  · rw [binadeSize_eq] at *
    omega

end Binade

/-! ## Whole numbers -/

/-- Of a whole number a double keeps a short one, which is greater by one part in `2 ^ 53` at
most. -/
theorem exists_ofNat_eq (n : ℕ) :
    ∃ m, ofNat n = ofNat m ∧ IsShort m ∧ 2 * binadeSize * m ≤ (2 * binadeSize + 1) * n := by
  rcases Nat.le_total n (2 * binadeSize) with hle | hge
  · exact ⟨n, rfl, isShort_of_le hle, Nat.mul_le_mul_right n (Nat.le_succ _)⟩
  -- Above that the binade of the number has whole numbers only.
  have hne : n ≠ 0 := by
    rintro rfl
    exact absurd hge (by decide)
  obtain ⟨e, he⟩ : ∃ e, n.log2 = significandBits + e := by
    apply Nat.exists_eq_add_of_le
    rw [Nat.le_log2 hne, ← binadeSize_eq_two_pow]
    omega
  have hlow : binadeSize * 2 ^ e ≤ n := by
    rw [binadeSize_eq_two_pow, ← pow_add, ← he]
    exact Nat.log2_self_le hne
  have hhigh : n ≤ 2 * binadeSize * 2 ^ e := by
    have hlog : n < 2 ^ (n.log2 + 1) := Nat.lt_log2_self
    rw [he, pow_succ', pow_add, ← binadeSize_eq_two_pow, ← Nat.mul_assoc] at hlog
    exact hlog.le
  have hexponent : binadeExponent (n * unitsPerOne / 1) = e + unitHalvings := by
    rw [Nat.div_one, unitsPerOne_eq, binadeExponent, log2_mul_two_pow hne, he]
    omega
  have hunits := unitsOfRank_nearestRank (n * unitsPerOne) one_pos
  rw [hexponent, Nat.one_mul, pow_add, ← unitsPerOne_eq,
    divNearestEven_mul_mul _ _ unitsPerOne_pos, ← Nat.mul_assoc] at hunits
  refine ⟨divNearestEven n (2 ^ e) * 2 ^ e, ?_, ⟨_, e, ?_, rfl⟩, ?_⟩
  · rw [ofNat, ofNat, ← hunits, ofUnits, ofUnits, nearestRank_unitsOfRank]
  · exact divNearestEven_le n (Nat.two_pow_pos e) hhigh
  · have hhalf := two_mul_divNearestEven_mul_le n (2 ^ e)
    rw [binadeSize_eq] at *
    omega

/-! ## Ties -/

section Tie

variable {m : ℕ} (hm : binadeSize ≤ m) (hlt : m < 2 * binadeSize)

include hm hlt

/-- Half way between two significands of a binade the even one is taken. -/
theorem ofUnits_tie (e : ℕ) (negative : Bool) :
    ofUnits negative ((2 * m + 1) * 2 ^ e) 1 = ofUnits negative ((m + m % 2) * 2 ^ (e + 1)) 1 := by
  have hexponent : binadeExponent ((2 * m + 1) * 2 ^ e) = e + 1 := by
    have hlog : (2 * m + 1).log2 = significandBits + 1 := by
      rw [Nat.log2_eq_iff (by omega)]
      simp only [pow_succ, ← binadeSize_eq_two_pow]
      omega
    rw [binadeExponent, log2_mul_two_pow (by omega), hlog]
    omega
  have hround : divNearestEven (2 * m + 1) 2 = m + m % 2 := by
    unfold divNearestEven
    simp only
    split <;> omega
  have hrank : nearestRank ((2 * m + 1) * 2 ^ e) 1 = (e + 1) * binadeSize + (m + m % 2) := by
    rw [nearestRank, Nat.div_one, hexponent, Nat.one_mul, pow_succ', Nat.mul_comm 2,
      Nat.mul_comm _ 2, divNearestEven_mul_mul _ _ (Nat.two_pow_pos e), hround]
  rw [ofUnits, ofUnits, hrank, ← unitsOfRank_of_carried (by omega) (.inl (by omega)),
    nearestRank_unitsOfRank]

theorem ofNat_tie (e : ℕ) : ofNat ((2 * m + 1) * 2 ^ e) = ofNat ((m + m % 2) * 2 ^ (e + 1)) := by
  rw [ofNat, ofNat, unitsPerOne_eq, Nat.mul_assoc, Nat.mul_assoc, ← pow_add, ← pow_add,
    Nat.add_right_comm]
  exact ofUnits_tie hm hlt _ false

end Tie

end Double

end RadixCalc
