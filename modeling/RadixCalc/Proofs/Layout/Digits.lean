import RadixCalc.Layout.Display
import RadixCalc.Proofs.Digits

/-!
# The digits a layout shows

A finite number in a layout is a sign, a prefix, whole digits in their groups and the digits of the
fraction behind a point. This file takes the text apart in that way once (`displayFinite_eq`), with
the digits as numbers: `shownDigits` are all of them, `wholeDigits` and `fractionDigits` the two
parts. What the text begins with is said by `exists_cons_unsigned`, and `keep_eq_mod` says that the
bits kept in a fixed field are the low digits.
-/

namespace RadixCalc

/-! ## Radices of layouts -/

namespace Radix

theorem ofNat?_eq_none {base : ℕ} (h : ¬(2 ≤ base ∧ base ≤ 36)) : ofNat? base = none :=
  dif_neg h

theorem ofNat?_eq_some {base : ℕ} (h : 2 ≤ base ∧ base ≤ 36) :
    ofNat? base = some ⟨base, h.1, h.2⟩ :=
  dif_pos h

theorem bitsPerDigit?_isSome_iff (r : Radix) :
    r.bitsPerDigit?.isSome = true ↔ r.value = 2 ∨ r.value = 8 ∨ r.value = 16 := by
  unfold bitsPerDigit?
  split
  · simp [*]
  · split
    · simp [*]
    · split <;> simp [*]

/-- A digit of a bit radix ranges over all numbers of so many bits. -/
theorem two_pow_bitsPerDigit? {r : Radix} {bits : ℕ} (h : r.bitsPerDigit? = some bits) :
    2 ^ bits = r.value := by
  unfold bitsPerDigit? at h
  split_ifs at h with hbinary hoctal hhexadecimal
  · cases h
    exact hbinary.symm
  · cases h
    exact hoctal.symm
  · cases h
    exact hhexadecimal.symm

end Radix

namespace Layout

/-- The low bits of a magnitude are its low digits: the bit mask reduces it modulo the power of the
radix that the field has room for. -/
theorem keep_eq_mod {r : Radix} {bits : ℕ} (h : r.bitsPerDigit? = some bits) (l : Layout) (n : ℕ) :
    l.keep bits n = n % r.value ^ l.digitCount := by
  rw [keep, Nat.one_shiftLeft, Nat.and_two_pow_sub_one_eq_mod, pow_mul,
    Radix.two_pow_bitsPerDigit? h]

theorem radix_eq_badRadix {l : Layout} (h : ¬(2 ≤ l.base ∧ l.base ≤ 36)) :
    l.radix = .error (.badRadix l.base) := by
  rw [radix, Radix.ofNat?_eq_none h]

theorem radix_eq_badLayout {l : Layout} (hb : 2 ≤ l.base ∧ l.base ≤ 36)
    (h : maxDigits < l.integers ∨ maxDigits < l.fraction) :
    l.radix = .error (.badLayout (.width l.integers l.fraction)) := by
  simp only [radix, Radix.ofNat?_eq_some hb, checkWidths, if_pos h]

theorem radix_eq_ok {l : Layout} (hb : 2 ≤ l.base ∧ l.base ≤ 36)
    (h : ¬(maxDigits < l.integers ∨ maxDigits < l.fraction)) :
    l.radix = .ok ⟨l.base, hb.1, hb.2⟩ := by
  simp only [radix, Radix.ofNat?_eq_some hb, checkWidths, if_neg h]

variable (l : Layout) (r : Radix)

/-! ## Digits -/

section Finite

variable (units : ℕ)

/-- The digits that a layout shows of a magnitude, highest first. -/
def shownDigits : List ℕ :=
  paddedDigits r.value l.digitCount (l.magnitude r units)

/-- The digits before the point. -/
def wholeDigits : List ℕ :=
  (l.shownDigits r units).take ((l.shownDigits r units).length - l.fraction)

/-- The digits behind the point. -/
def fractionDigits : List ℕ :=
  (l.shownDigits r units).drop ((l.shownDigits r units).length - l.fraction)

theorem wholeDigits_append_fractionDigits :
    l.wholeDigits r units ++ l.fractionDigits r units = l.shownDigits r units :=
  List.take_append_drop _ _

theorem length_shownDigits : (l.shownDigits r units).length =
    max l.digitCount (digits r.value (l.magnitude r units)).length :=
  length_paddedDigits _ _ _

theorem fraction_lt_length_shownDigits : l.fraction < (l.shownDigits r units).length := by
  rw [length_shownDigits, digitCount]
  omega

theorem length_fractionDigits : (l.fractionDigits r units).length = l.fraction := by
  have := l.fraction_lt_length_shownDigits r units
  rw [fractionDigits, List.length_drop]
  omega

theorem wholeDigits_ne_nil : l.wholeDigits r units ≠ [] := by
  have := l.fraction_lt_length_shownDigits r units
  rw [← List.length_pos_iff, wholeDigits, List.length_take]
  omega

theorem shownDigits_lt : ∀ d ∈ l.shownDigits r units, d < r.value :=
  paddedDigits_lt r.two_le _ _

theorem wholeDigits_lt : ∀ d ∈ l.wholeDigits r units, d < r.value :=
  fun d hd => l.shownDigits_lt r units d (List.mem_of_mem_take hd)

theorem fractionDigits_lt : ∀ d ∈ l.fractionDigits r units, d < r.value :=
  fun d hd => l.shownDigits_lt r units d (List.mem_of_mem_drop hd)

end Finite

/-! ## The text -/

/-- The prefix of a base; only three bases have one. -/
def basePrefix (base : ℕ) : Text :=
  if base = 2 then ['0', 'b'] else if base = 8 then ['0', 'o'] else if base = 16 then ['0', 'x']
  else []

theorem prefixText_eq {l : Layout} {r : Radix} (hr : r.value = l.base) :
    l.prefixText r = if l.showRadix then basePrefix l.base else [] := by
  rw [prefixText, Radix.shownPrefix?, hr, basePrefix]
  split_ifs <;> rfl

/-- What stands behind the whole digits. -/
def fractionText (ds : List ℕ) : Text :=
  if l.fraction = 0 then [] else pointMark :: ds.map digitChar

/-- A finite number without its sign. -/
def unsignedText (units : ℕ) : Text :=
  l.prefixText r ++ (groupDigits l.group ((l.wholeDigits r units).map digitChar) ++
    l.fractionText (l.fractionDigits r units))

/-- A finite number is its sign, its prefix, its whole digits in groups and its fraction. -/
theorem displayFinite_eq (negative : Bool) (units : ℕ) :
    l.displayFinite r negative units =
      Double.signText (l.showsMinus r negative (l.magnitude r units)) (l.unsignedText r units) := by
  have htext : l.digitText r (l.magnitude r units) = (l.shownDigits r units).map digitChar :=
    padZeros_numeral _ _ _
  rw [displayFinite]
  simp only [htext, List.length_map, ← List.map_take, ← List.map_drop, List.append_assoc]
  rfl

theorem head?_groupDigits (size : ℕ) (ds : Text) : (groupDigits size ds).head? = ds.head? := by
  cases ds with
  | nil => rfl
  | cons c cs =>
    rw [groupDigits]
    split <;> rfl

/-- A prefix is a zero and a letter that names the radix. -/
theorem prefixText_cases :
    l.prefixText r = [] ∨ ∃ c, l.prefixText r = ['0', c] ∧ Radix.ofLetter? c = some r := by
  obtain ⟨base, h₁, h₂⟩ := r
  unfold prefixText Radix.shownPrefix?
  split_ifs with hshow hbinary hoctal hhexadecimal
  · subst hbinary
    exact .inr ⟨'b', rfl, rfl⟩
  · subst hoctal
    exact .inr ⟨'o', rfl, rfl⟩
  · subst hhexadecimal
    exact .inr ⟨'x', rfl, rfl⟩
  · exact .inl rfl
  · exact .inl rfl

/-- Without its sign a number begins with a letter or a figure. -/
theorem exists_cons_unsigned (units : ℕ) :
    ∃ c rest, l.unsignedText r units = c :: rest ∧ c.isAlphanum = true := by
  rw [unsignedText]
  rcases l.prefixText_cases r with hp | ⟨c, hp, -⟩
  · cases hw : l.wholeDigits r units with
    | nil => exact absurd hw (l.wholeDigits_ne_nil r units)
    | cons d ds =>
      have hd : d < 36 := by
        have := l.wholeDigits_lt r units d (by simp [hw])
        have := r.le_thirtySix
        omega
      have hhead := head?_groupDigits l.group ((d :: ds).map digitChar)
      obtain ⟨rest, hrest⟩ := List.head?_eq_some_iff.1 hhead
      exact ⟨digitChar d, _, by rw [hp, hrest]; rfl, isAlphanum_digitChar d hd⟩
  · exact ⟨'0', _, by rw [hp]; rfl, by decide⟩

end Layout

end RadixCalc
