import RadixCalc.Proofs.Double.Truncated
import RadixCalc.Proofs.Formula.Bounded

/-!
# Shifting words

A shift takes both operands for 64-bit words in two's complement. For every count that is not
negative, however large, it follows one law: to the left the word is multiplied by a power of two
and what overflows is cut off, to the right it is divided and rounded down. A processor shifts by
less than the width only, so counts outside the width are settled apart, and at the width they have
to meet the law.

* `Double.bind_toCount?` says which counts are shifted by.
* `Double.toInt_shiftWordLeft` and `Double.toInt_shiftWordRight` are the law for words;
  `Double.shiftWordLeft_of_neg` and `Double.shiftWordRight_of_neg` are the negative counts.
* `Formula.eval_shifts` is the law for values of formulas.
-/

namespace RadixCalc

namespace Double

/-! ## Counts within the width -/

section Within

variable {word count : Int64} (h : 0 ≤ count.toInt) (hlt : count.toInt < 64)

include h hlt

/-- A count within the width is not reduced. -/
theorem toNat_smod_count : (count.toBitVec.smod 64).toNat = count.toInt.toNat := by
  have hwidth : (64 : BitVec 64).toInt = 64 := by decide
  have hreduced : (count.toBitVec.smod 64).toInt = count.toInt := by
    rw [BitVec.toInt_smod, hwidth, Int64.toInt_toBitVec, Int.fmod_eq_emod_of_nonneg _ (by decide),
      Int.emod_eq_of_lt h hlt]
  have hsign := BitVec.toInt_eq_toNat_cond (count.toBitVec.smod 64)
  have hbound := (count.toBitVec.smod 64).isLt
  rw [hreduced] at hsign
  split at hsign
  · omega
  · omega

theorem toInt_shiftLeft :
    (word <<< count).toInt = (word.toInt * 2 ^ count.toInt.toNat).bmod (2 ^ 64) := by
  rw [← Int64.toInt_toBitVec, Int64.toBitVec_shiftLeft, BitVec.shiftLeft_eq',
    toNat_smod_count h hlt, BitVec.toInt_shiftLeft, Nat.shiftLeft_eq, Nat.cast_mul, Nat.cast_pow,
    ← Int.bmod_mul_bmod, ← BitVec.toInt_eq_toNat_bmod, Int64.toInt_toBitVec]
  rfl

theorem toInt_shiftRight : (word >>> count).toInt = word.toInt / 2 ^ count.toInt.toNat := by
  rw [← Int64.toInt_toBitVec, Int64.toBitVec_shiftRight, BitVec.sshiftRight_eq',
    toNat_smod_count h hlt, BitVec.toInt_sshiftRight, Int64.toInt_toBitVec,
    Int.shiftRight_eq_div_pow]
  push_cast
  rfl

end Within

/-! ## All counts -/

section Counts

variable (word : Int64) {count : Int64}

theorem count_within_iff : (0 ≤ count ∧ count < 64) ↔ 0 ≤ count.toInt ∧ count.toInt < 64 := by
  rw [Int64.le_iff_toInt_le, Int64.lt_iff_toInt_lt]
  rfl

/-- The counts that a shift takes are those below the width, and it takes them as they are: the
others are no words without a sign, or too great. -/
theorem bind_toCount? (shift : Int64 → Int64) (count : Int64) :
    ((toCount? count).bind fun bits =>
      if bits < 64 then some (shift (.ofNat bits.toNat)) else none) =
      if 0 ≤ count ∧ count < 64 then some (shift count) else none := by
  have hsize : UInt32.size = 2 ^ 32 := rfl
  unfold toCount?
  split
  · next hword =>
    have hbits : (UInt32.ofNat count.toInt.toNat).toNat = count.toInt.toNat :=
      UInt32.toNat_ofNat_of_lt' (by omega)
    have hcount : Int64.ofNat count.toInt.toNat = count := by
      rw [← Int64.toInt_inj, Int64.toInt_ofNat_of_lt (by omega), Int.toNat_of_nonneg hword.1]
    have hwidth : UInt32.ofNat count.toInt.toNat < 64 ↔ 0 ≤ count ∧ count < 64 := by
      have hlimit : (64 : UInt32).toNat = 64 := rfl
      rw [UInt32.lt_iff_toNat_lt, hbits, hlimit, count_within_iff]
      omega
    rw [Option.bind_some, hbits, hcount]
    exact if_congr hwidth rfl rfl
  · next hbeyond =>
    have hout : ¬(0 ≤ count ∧ count < 64) := by
      rw [count_within_iff]
      omega
    rw [Option.bind_none, if_neg hout]

theorem shiftWordLeft_eq :
    shiftWordLeft word count = if 0 ≤ count ∧ count < 64 then word <<< count else 0 := by
  have hbind := bind_toCount? (word <<< ·) count
  rw [shiftWordLeft, show (toCount? count).bind (shiftLeft? word) = _ from hbind]
  split <;> rfl

theorem shiftWordRight_eq :
    shiftWordRight word count =
      if 0 ≤ count ∧ count < 64 then word >>> count else if word < 0 then -1 else 0 := by
  have hbind := bind_toCount? (word >>> ·) count
  rw [shiftWordRight, show (toCount? count).bind (shiftRight? word) = _ from hbind]
  split <;> rfl

/-- From the width on a power of two leaves nothing of a word. -/
theorem bmod_mul_two_pow {n : ℕ} (hn : 64 ≤ n) (i : ℤ) : (i * 2 ^ n).bmod (2 ^ 64) = 0 := by
  apply Int.bmod_eq_zero_of_dvd
  have hdvd : (2 : ℤ) ^ 64 ∣ 2 ^ n := pow_dvd_pow 2 hn
  exact_mod_cast hdvd.mul_left i

/-- From the width on a power of two leaves only the sign of a word. -/
theorem div_two_pow {n : ℕ} (hn : 64 ≤ n) :
    word.toInt / 2 ^ n = if word.toInt < 0 then -1 else 0 := by
  have hlow := word.le_toInt
  have hhigh := word.toInt_lt
  have hpow : (2 : ℤ) ^ 64 ≤ 2 ^ n := pow_le_pow_right₀ (by decide) hn
  split
  · next hneg => exact Int.ediv_eq_neg_one_of_neg_of_le hneg (by omega)
  · next hnonneg => exact Int.ediv_eq_zero_of_lt (by omega) (by omega)

/-- To the left the word is multiplied by a power of two, as far as it has room. -/
theorem toInt_shiftWordLeft (h : 0 ≤ count.toInt) :
    (shiftWordLeft word count).toInt = (word.toInt * 2 ^ count.toInt.toNat).bmod (2 ^ 64) := by
  rw [shiftWordLeft_eq]
  split
  · next hwithin => exact toInt_shiftLeft h (count_within_iff.1 hwithin).2
  · next hbeyond =>
    rw [count_within_iff] at hbeyond
    rw [bmod_mul_two_pow (by omega)]
    rfl

/-- To the right the word is divided by a power of two and rounded down. -/
theorem toInt_shiftWordRight (h : 0 ≤ count.toInt) :
    (shiftWordRight word count).toInt = ⌊(word.toInt : ℚ) / 2 ^ count.toInt.toNat⌋ := by
  have hfloor : ⌊(word.toInt : ℚ) / 2 ^ count.toInt.toNat⌋ =
      word.toInt / 2 ^ count.toInt.toNat := by
    have hdiv := Rat.floor_intCast_div_natCast word.toInt (2 ^ count.toInt.toNat)
    push_cast at hdiv
    exact hdiv
  rw [hfloor]
  rw [shiftWordRight_eq]
  split
  · next hwithin => exact toInt_shiftRight h (count_within_iff.1 hwithin).2
  · next hbeyond =>
    rw [count_within_iff] at hbeyond
    rw [div_two_pow word (by omega), apply_ite Int64.toInt]
    simp only [Int64.lt_iff_toInt_lt]
    rfl

variable (h : count.toInt < 0)

include h

theorem shiftWordLeft_of_neg : shiftWordLeft word count = 0 := by
  have hbeyond : ¬(0 ≤ count ∧ count < 64) := by rw [count_within_iff]; omega
  rw [shiftWordLeft_eq, if_neg hbeyond]

theorem shiftWordRight_of_neg :
    shiftWordRight word count = if word.toInt < 0 then -1 else 0 := by
  have hbeyond : ¬(0 ≤ count ∧ count < 64) := by rw [count_within_iff]; omega
  rw [shiftWordRight_eq, if_neg hbeyond]
  simp only [Int64.lt_iff_toInt_lt]
  rfl

end Counts

/-! ## Doubles as words -/

/-- The integer of 64 bits that a double stands for. -/
def IsWord (x : Double) (i : ℤ) : Prop :=
  IsTruncation (-2 ^ 63) (2 ^ 63 - 1) x i

theorem isWord_toInt64 (x : Double) : IsWord x x.toInt64.toInt := by
  obtain ⟨hlow, hhigh⟩ :=
    toIntBetween_mem (-2 ^ 63) (2 ^ 63 - 1) (by decide) (by decide) x
  have hword : x.toInt64.toInt = x.toIntBetween (-2 ^ 63) (2 ^ 63 - 1) :=
    Int64.toInt_ofInt_of_le hlow (Int.lt_of_le_sub_one hhigh)
  rw [IsWord, hword]
  exact isTruncation_toIntBetween _ _ x

end Double

namespace Formula

open Double (IsWord IsNearest)

variable {env : Environment} {e₁ e₂ : Formula} {x n : Double}

/-- A shift has a value wherever its operands have values, whatever these are. With both taken for
integers of 64 bits, a shift to the left is the multiple by a power of two, reduced to 64 bits, and
a shift to the right the quotient rounded down; a negative count leaves nothing to the left and the
sign to the right. -/
theorem eval_shifts (h₁ : e₁.eval env = .ok x) (h₂ : e₂.eval env = .ok n) :
    ∃ word count left right, IsWord x word ∧ IsWord n count ∧
      (binary .shiftLeft e₁ e₂).eval env = .ok left ∧
      (binary .shiftRight e₁ e₂).eval env = .ok right ∧
      (0 ≤ count →
        IsNearest ((word * 2 ^ count.toNat).bmod (2 ^ 64)) left ∧
        IsNearest ⌊(word : ℚ) / 2 ^ count.toNat⌋ right) ∧
      (count < 0 → left = .zero false ∧ right = if word < 0 then -.one else .zero false) := by
  have hleft : (binary .shiftLeft e₁ e₂).eval env = .ok (.onWords Double.shiftWordLeft x n) := by
    rw [eval_binary, h₁, h₂]
    rfl
  have hright : (binary .shiftRight e₁ e₂).eval env = .ok (.onWords Double.shiftWordRight x n) := by
    rw [eval_binary, h₁, h₂]
    rfl
  refine ⟨_, _, _, _, Double.isWord_toInt64 x, Double.isWord_toInt64 n, hleft, hright, ?_, ?_⟩
  · intro hcount
    rw [← Double.toInt_shiftWordLeft _ hcount, ← Double.toInt_shiftWordRight _ hcount]
    exact ⟨Double.isNearest_ofInt _, Double.isNearest_ofInt _⟩
  · intro hcount
    have hzero : Double.ofInt64 0 = .zero false := by decide +kernel
    have hone : Double.ofInt64 (-1) = -.one := by decide +kernel
    rw [Double.onWords, Double.onWords, Double.shiftWordLeft_of_neg _ hcount,
      Double.shiftWordRight_of_neg _ hcount, apply_ite Double.ofInt64, hzero, hone]
    exact ⟨rfl, rfl⟩

/-- Of `-5 << 62` two bits of the product are cut off, and `-5 >> 62` is rounded down. -/
theorem eval_shifts_wrapped :
    let env : Environment := fun _ => none
    (number (.ofInt (-5))).eval env = .ok (.ofInt (-5)) ∧
    (number (.ofInt 62)).eval env = .ok (.ofInt 62) ∧
    ∃ left right,
      (binary .shiftLeft (number (.ofInt (-5))) (number (.ofInt 62))).eval env = .ok left ∧
      (binary .shiftRight (number (.ofInt (-5))) (number (.ofInt 62))).eval env = .ok right ∧
      IsNearest (-2 ^ 62) left ∧ IsNearest (-1) right := by
  intro env
  have hfive : (number (.ofInt (-5))).eval env = .ok (.ofInt (-5)) := rfl
  have hcount : (number (.ofInt 62)).eval env = .ok (.ofInt 62) := rfl
  obtain ⟨word, count, left, right, hword, hn, hleft, hright, hshift, -⟩ := eval_shifts hfive hcount
  obtain rfl := hword.eq_of_toRat? (Double.toRat?_ofInt (by decide)) (by decide) (by decide)
  obtain rfl := hn.eq_of_toRat? (Double.toRat?_ofInt (by decide)) (by decide) (by decide)
  obtain ⟨hproduct, hquotient⟩ := hshift (by decide)
  have hwrapped : ((-5 : ℤ) * 2 ^ (62 : ℤ).toNat).bmod (2 ^ 64) = -2 ^ 62 := by decide
  have hfloor : ⌊((-5 : ℤ) : ℚ) / 2 ^ (62 : ℤ).toNat⌋ = -1 := by
    rw [show (62 : ℤ).toNat = 62 from rfl, Int.floor_eq_iff]
    norm_num
  rw [hwrapped] at hproduct
  rw [hfloor] at hquotient
  exact ⟨hfive, hcount, left, right, hleft, hright, hproduct, hquotient⟩

end Formula

end RadixCalc
