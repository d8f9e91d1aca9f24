import RadixCalc.Text.Basic

/-!
# Digits

Positional numerals in an arbitrary base. A numeral is a list of digit values with the highest digit
first; zero is the one digit 0, and no other numeral of `digits` begins with 0. The digit characters
are the ten figures and then the letters, written in capitals and read in either case.

* `digits` and `valueOfDigits` pass between a natural number and its numeral
  (`valueOfDigits_digits`).
* `digitChar` and `digitValue?` pass between a digit value and its character
  (`digitValue?_digitChar`).
-/

namespace RadixCalc

/-! ## Digits and values -/

/-- The digits of a natural number, lowest first. Below base 2 the number is its own digit. -/
def lowDigits (base n : Nat) : List Nat :=
  if 2 ≤ base ∧ base ≤ n then n % base :: lowDigits base (n / base) else [n]
  termination_by n
  decreasing_by exact Nat.div_lt_self (by omega) (by omega)

/-- The digits of a natural number, highest first. -/
def digits (base n : Nat) : List Nat :=
  (lowDigits base n).reverse

/-- The number that a list of digits stands for, highest first. -/
def valueOfDigits (base : Nat) (ds : List Nat) : Nat :=
  ds.foldl (fun value digit => value * base + digit) 0

theorem lowDigits_lt {base n : Nat} (hb : 2 ≤ base) : ∀ d ∈ lowDigits base n, d < base := by
  fun_induction lowDigits base n with
  | case1 n h ih =>
    intro d hd
    rcases List.mem_cons.1 hd with rfl | hd
    · exact Nat.mod_lt _ (by omega)
    · exact ih d hd
  | case2 n h =>
    intro d hd
    rw [List.mem_singleton.1 hd]
    omega

/-- Every digit lies below the base. -/
theorem digits_lt {base n : Nat} (hb : 2 ≤ base) : ∀ d ∈ digits base n, d < base := by
  intro d hd
  exact lowDigits_lt hb d (List.mem_reverse.1 hd)

theorem valueOfDigits_append_singleton (base : Nat) (ds : List Nat) (d : Nat) :
    valueOfDigits base (ds ++ [d]) = valueOfDigits base ds * base + d := by
  simp [valueOfDigits]

/-- The digits of a number stand for the number. -/
theorem valueOfDigits_digits (base n : Nat) : valueOfDigits base (digits base n) = n := by
  unfold digits
  fun_induction lowDigits base n with
  | case1 n h ih =>
    rw [List.reverse_cons, valueOfDigits_append_singleton, ih, Nat.mul_comm]
    exact Nat.div_add_mod n base
  | case2 n h => simp [valueOfDigits]

/-! ## Characters -/

/-- The character of a digit below 36. -/
def digitChar (digit : Nat) : Char :=
  if digit < 10 then Char.ofNat ('0'.toNat + digit) else Char.ofNat ('A'.toNat + (digit - 10))

/-- The value of a figure or of a letter of either case. -/
def digitValue? (c : Char) : Option Nat :=
  if '0' ≤ c ∧ c ≤ '9' then some (c.toNat - '0'.toNat)
  else if 'a' ≤ c ∧ c ≤ 'z' then some (c.toNat - 'a'.toNat + 10)
  else if 'A' ≤ c ∧ c ≤ 'Z' then some (c.toNat - 'A'.toNat + 10)
  else none

/-- A digit is read back from its character. -/
theorem digitValue?_digitChar : ∀ d < 36, digitValue? (digitChar d) = some d := by
  decide

/-! ## Numerals as text -/

/-- The numeral of a natural number as text. -/
def numeral (base n : Nat) : Text :=
  (digits base n).map digitChar

/-- The decimal figures of a text as digit values. -/
def figureValues (figures : Text) : List Nat :=
  figures.map fun c => c.toNat - '0'.toNat

/-- The number that a text of decimal figures stands for. -/
def valueOfFigures (figures : Text) : Nat :=
  valueOfDigits 10 (figureValues figures)

/-- A text brought to a width by zeros in front. -/
def padZeros (width : Nat) (text : Text) : Text :=
  List.replicate (width - text.length) '0' ++ text

end RadixCalc
