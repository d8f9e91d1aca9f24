import Mathlib
import RadixCalc.Digits

/-!
# Digits, lowest first

The numerals of `RadixCalc.Digits` are read from the highest digit on and show zero as one digit.
Here they are compared with the digits of Mathlib, which come lowest first and are none for zero.

* `valueOfDigits_eq_ofDigits` and `length_digits` are the comparison.
* `eq_digits_of_length_eq` says that a numeral is determined by its value and its length, and
  `length_digits_le_iff` what that length is.
* `paddedDigits` is a numeral with zeros in front up to a width; they change no value
  (`valueOfDigits_paddedDigits`), and `padZeros_numeral` says that this is what is written.
* `isAlphanum_digitChar` keeps the characters of digits apart from all marks.
-/

namespace RadixCalc

theorem lowDigits_of_lt {base n : ℕ} (h : n < base) : lowDigits base n = [n] := by
  rw [lowDigits, if_neg (by omega)]

theorem lowDigits_of_le {base n : ℕ} (hb : 2 ≤ base) (h : base ≤ n) :
    lowDigits base n = n % base :: lowDigits base (n / base) := by
  rw [lowDigits, if_pos ⟨hb, h⟩]

theorem lowDigits_eq_digits {base n : ℕ} (hb : 2 ≤ base) (hn : n ≠ 0) :
    lowDigits base n = Nat.digits base n := by
  induction n using Nat.strong_induction_on with
  | _ n ih =>
    rw [Nat.digits_def' hb (Nat.pos_of_ne_zero hn)]
    by_cases h : n < base
    · rw [lowDigits_of_lt h, Nat.mod_eq_of_lt h, Nat.div_eq_of_lt h, Nat.digits_zero]
    · have hle : base ≤ n := Nat.not_lt.1 h
      have hquot : n / base ≠ 0 := Nat.div_ne_zero_iff.2 ⟨by omega, hle⟩
      have hlt : n / base < n := Nat.div_lt_self (by omega) (by omega)
      rw [lowDigits_of_le hb hle, ih (n / base) hlt hquot]

/-- A numeral has as many digits as its number, and one where that has none. -/
theorem length_digits {base : ℕ} (hb : 2 ≤ base) (n : ℕ) :
    (digits base n).length = max 1 (Nat.digits base n).length := by
  rw [digits, List.length_reverse]
  by_cases hn : n = 0
  · subst hn
    rw [lowDigits_of_lt (by omega), Nat.digits_zero]
    rfl
  · have hne : Nat.digits base n ≠ [] := Nat.digits_ne_nil_iff_ne_zero.2 hn
    have hpos := List.length_pos_iff.2 hne
    rw [lowDigits_eq_digits hb hn]
    omega

theorem valueOfDigits_eq_ofDigits (base : ℕ) (ds : List ℕ) :
    valueOfDigits base ds = Nat.ofDigits base ds.reverse := by
  induction ds using List.reverseRecOn with
  | nil => rfl
  | append_singleton ds d ih =>
    rw [valueOfDigits_append_singleton, List.reverse_append, List.reverse_singleton,
      List.singleton_append, Nat.ofDigits_cons, ih, Nat.mul_comm, Nat.add_comm]

theorem valueOfDigits_replicate_zero_append (base k : ℕ) (ds : List ℕ) :
    valueOfDigits base (List.replicate k 0 ++ ds) = valueOfDigits base ds := by
  induction k with
  | zero => rfl
  | succ k ih =>
    rw [← ih, List.replicate_succ, List.cons_append]
    unfold valueOfDigits
    rw [List.foldl_cons, Nat.zero_mul]

/-! ## Lengths and values -/

section Values

variable {base : ℕ} (hb : 2 ≤ base) {ds : List ℕ}

include hb

theorem valueOfDigits_lt (hds : ∀ d ∈ ds, d < base) :
    valueOfDigits base ds < base ^ ds.length := by
  rw [valueOfDigits_eq_ofDigits, ← List.length_reverse]
  exact Nat.ofDigits_lt_base_pow_length hb fun d hd => hds d (List.mem_reverse.1 hd)

/-- Digits are the numeral of their value where they are as many. -/
theorem eq_digits_of_length_eq (hds : ∀ d ∈ ds, d < base)
    (hlength : ds.length = (digits base (valueOfDigits base ds)).length) :
    ds = digits base (valueOfDigits base ds) := by
  apply List.reverse_injective
  refine Nat.ofDigits_inj_of_len_eq hb (by simpa using hlength)
    (fun d hd => hds d (List.mem_reverse.1 hd))
    (fun d hd => digits_lt hb d (List.mem_reverse.1 hd)) ?_
  rw [← valueOfDigits_eq_ofDigits, ← valueOfDigits_eq_ofDigits, valueOfDigits_digits]

theorem length_digits_pos (n : ℕ) : 0 < (digits base n).length := by
  rw [length_digits hb]
  omega

theorem length_digits_le_iff {n k : ℕ} (hk : 0 < k) :
    (digits base n).length ≤ k ↔ n < base ^ k := by
  rw [length_digits hb, ← Nat.digits_length_le_iff hb]
  omega

/-- A number of this many digits is not below the power with one digit less. -/
theorem pow_length_digits_le (n : ℕ) : base ^ ((digits base n).length - 1) ≤ max 1 n := by
  rcases Nat.lt_or_ge 1 (digits base n).length with hlong | hshort
  · have hnot := (length_digits_le_iff hb (n := n) (k := (digits base n).length - 1)
      (by omega)).not.1 (by omega)
    omega
  · rw [Nat.sub_eq_zero_of_le hshort, pow_zero]
    exact le_max_left _ _

end Values

/-- Digits stand for more in a greater base. -/
theorem valueOfDigits_le_of_le {base base' : ℕ} (h : base ≤ base') (ds : List ℕ) :
    valueOfDigits base ds ≤ valueOfDigits base' ds := by
  induction ds using List.reverseRecOn with
  | nil => exact le_rfl
  | append_singleton ds d ih =>
    rw [valueOfDigits_append_singleton, valueOfDigits_append_singleton]
    exact Nat.add_le_add_right (Nat.mul_le_mul ih h) d

/-- In an even base the last digit decides whether a number is even. -/
theorem two_dvd_valueOfDigits_iff {base base' : ℕ} (h : 2 ∣ base) (h' : 2 ∣ base') (ds : List ℕ) :
    2 ∣ valueOfDigits base ds ↔ 2 ∣ valueOfDigits base' ds := by
  cases ds using List.reverseRecOn with
  | nil => exact Iff.rfl
  | append_singleton ds d =>
    rw [valueOfDigits_append_singleton, valueOfDigits_append_singleton,
      Nat.dvd_add_right (Dvd.dvd.mul_left h _), Nat.dvd_add_right (Dvd.dvd.mul_left h' _)]

/-! ## Padding -/

/-- The digits of a number, highest first, with zeros in front up to a width. -/
def paddedDigits (base width n : ℕ) : List ℕ :=
  List.replicate (width - (digits base n).length) 0 ++ digits base n

theorem paddedDigits_lt {base : ℕ} (hb : 2 ≤ base) (width n : ℕ) :
    ∀ d ∈ paddedDigits base width n, d < base := by
  intro d hd
  rcases List.mem_append.1 hd with h | h
  · rw [List.eq_of_mem_replicate h]
    omega
  · exact digits_lt hb d h

theorem length_paddedDigits (base width n : ℕ) :
    (paddedDigits base width n).length = max width (digits base n).length := by
  rw [paddedDigits, List.length_append, List.length_replicate]
  omega

/-- Zeros in front change no value. -/
theorem valueOfDigits_paddedDigits (base width n : ℕ) :
    valueOfDigits base (paddedDigits base width n) = n := by
  rw [paddedDigits, valueOfDigits_replicate_zero_append, valueOfDigits_digits]

/-- A numeral brought to a width shows the padded digits. -/
theorem padZeros_numeral (base width n : ℕ) :
    padZeros width (numeral base n) = (paddedDigits base width n).map digitChar := by
  rw [padZeros, numeral, paddedDigits, List.map_append, List.map_replicate, List.length_map]
  rfl

/-! ## Characters -/

theorem isAlphanum_digitChar : ∀ d < 36, (digitChar d).isAlphanum = true := by
  decide

/-- A character that is neither a letter nor a figure shows no digit. -/
theorem digitChar_ne {d : ℕ} (hd : d < 36) {c : Char} (hc : c.isAlphanum = false) :
    digitChar d ≠ c := by
  intro h
  rw [← h, isAlphanum_digitChar d hd] at hc
  exact Bool.noConfusion hc

end RadixCalc
