/-!
# Doubles

A double is one of the numbers of the 64-bit binary format, or one of its three exceptional values.
The finite magnitudes are numbered in increasing order from zero, and a magnitude is its number, its
*rank*: within a binade ranks count up by one unit in the last place, and the next binade follows
on. So every rank below `rankCount` is a magnitude, each magnitude has one rank, and order is the
order of ranks. The sixty-three low bits of the stored word are the rank.

* `Double` is the type; `Double.toBits` and `Double.ofBits` are its stored form.
* `Double.unitsOfRank` is the exact magnitude, counted in units of `2 ^ -1074`, the smallest
  magnitude there is. Every finite double is a whole number of units.
* `Double.toRat?` is the exact value.
* `Double.position?` places doubles on the number line; the comparisons read it.
-/

namespace RadixCalc

/-- Powers of natural numbers are those of the core library, whatever else a module imports. -/
abbrev corePow : Pow Nat Nat := instPowNat

attribute [local instance] corePow

/-- The number of stored bits of a significand. -/
def significandBits : Nat := 52

/-- The number of magnitudes in a binade. -/
def binadeSize : Nat := 2 ^ significandBits

/-- The number of finite magnitudes: 2047 binades, the first two sharing their unit in the last
place. -/
def rankCount : Nat := 2047 * binadeSize

theorem binadeSize_eq : binadeSize = 4503599627370496 := by decide

/-- A number of the 64-bit binary format. -/
inductive Double where
  /-- The value that is no number. -/
  | nan
  /-- An infinity. -/
  | infinity (negative : Bool)
  /-- A finite number, by its sign and the rank of its magnitude. -/
  | finite (negative : Bool) (rank : Fin rankCount)
  deriving DecidableEq, Repr

namespace Double

/-! ## Exact value -/

/-- How often the unit in the last place at this rank has doubled since the smallest magnitudes. -/
def exponentOfRank (rank : Nat) : Nat :=
  rank / binadeSize - 1

/-- The magnitude at this rank, counted in units in its last place. -/
def significandOfRank (rank : Nat) : Nat :=
  rank - exponentOfRank rank * binadeSize

/-- The magnitude at this rank, counted in units of `2 ^ -1074`. -/
def unitsOfRank (rank : Nat) : Nat :=
  significandOfRank rank * 2 ^ exponentOfRank rank

/-- How often one has to be halved to become a unit. -/
def unitHalvings : Nat := 1074

/-- The number of units in one. -/
def unitsPerOne : Nat := 2 ^ unitHalvings

/-- A magnitude under a sign. -/
def signed (negative : Bool) (magnitude : Nat) : Int :=
  if negative then -(magnitude : Int) else magnitude

/-- The exact value of a finite double. -/
def toRat? : Double → Option Rat
  | nan => none
  | infinity _ => none
  | finite negative rank => some (mkRat (signed negative (unitsOfRank rank)) unitsPerOne)

/-- The magnitude of a finite double in units; an exceptional value has none. -/
def units? : Double → Option Nat
  | nan => none
  | infinity _ => none
  | finite _ rank => some (unitsOfRank rank)

/-! ## Classification -/

/-- Tells whether the value is no number. -/
def isNaN : Double → Bool
  | nan => true
  | _ => false

/-- Tells whether the value is an infinity. -/
def isInfinite : Double → Bool
  | infinity _ => true
  | _ => false

/-- Tells whether the value is a finite number. -/
def isFinite : Double → Bool
  | finite _ _ => true
  | _ => false

/-! ## Named values -/

/-- A zero of either sign. -/
def zero (negative : Bool) : Double :=
  finite negative ⟨0, by decide⟩

/-- The magnitude one: the first of its binade. -/
def one : Double :=
  finite false ⟨1023 * binadeSize, by decide⟩

/-- The double nearest to the circle constant. -/
def pi : Double :=
  finite false ⟨0x400921fb54442d18, by decide⟩

/-- Truth as a number. -/
def ofBool (b : Bool) : Double :=
  if b then one else zero false

instance : Inhabited Double := ⟨zero false⟩

/-! ## Sign -/

/-- The opposite number. -/
def neg : Double → Double
  | nan => nan
  | infinity negative => infinity (!negative)
  | finite negative rank => finite (!negative) rank

/-- The number without its sign. -/
def abs : Double → Double
  | nan => nan
  | infinity _ => infinity false
  | finite _ rank => finite false rank

instance : Neg Double := ⟨neg⟩

/-! ## Stored form -/

/-- The place of the sign in the stored word, above the ranks and the exceptional values. -/
def signPlace : Nat := 2048 * binadeSize

/-- The word that stores a sign above a magnitude. -/
def word (negative : Bool) (magnitude : Nat) : UInt64 :=
  UInt64.ofNat (if negative then signPlace + magnitude else magnitude)

/-- The stored form; the value that is no number has one form here. -/
def toBits : Double → UInt64
  | nan => word false (rankCount + binadeSize / 2)
  | infinity negative => word negative rankCount
  | finite negative rank => word negative rank

/-- The double with a sign and a stored magnitude. -/
def ofParts (negative : Bool) (magnitude : Nat) : Double :=
  if h : magnitude < rankCount then finite negative ⟨magnitude, h⟩
  else if magnitude = rankCount then infinity negative
  else nan

/-- The double that a word stores. -/
def ofBits (bits : UInt64) : Double :=
  ofParts (decide (signPlace ≤ bits.toNat)) (bits.toNat % signPlace)

theorem toNat_word {negative : Bool} {magnitude : Nat} (h : magnitude < signPlace) :
    (word negative magnitude).toNat = if negative then signPlace + magnitude else magnitude := by
  rw [word, UInt64.toNat_ofNat']
  unfold signPlace at *
  rw [binadeSize_eq] at *
  split <;> omega

theorem ofBits_word {negative : Bool} {magnitude : Nat} (h : magnitude < signPlace) :
    ofBits (word negative magnitude) = ofParts negative magnitude := by
  unfold ofBits
  rw [toNat_word h]
  cases negative with
  | false =>
    rw [if_neg Bool.false_ne_true, Nat.mod_eq_of_lt h, decide_eq_false (Nat.not_le.2 h)]
  | true =>
    rw [if_pos rfl, Nat.add_mod_left, Nat.mod_eq_of_lt h, decide_eq_true (Nat.le_add_right _ _)]

theorem rankCount_lt : rankCount + binadeSize / 2 < signPlace := by decide

/-- A double is read back from its stored form. -/
theorem ofBits_toBits (x : Double) : ofBits x.toBits = x := by
  have hcount : rankCount < signPlace := Nat.lt_of_le_of_lt (Nat.le_add_right _ _) rankCount_lt
  cases x with
  | nan =>
    have hlt : ¬rankCount + binadeSize / 2 < rankCount := Nat.not_lt.2 (Nat.le_add_right _ _)
    have hne : rankCount + binadeSize / 2 ≠ rankCount :=
      Nat.ne_of_gt (Nat.lt_add_of_pos_right (by decide))
    rw [toBits, ofBits_word rankCount_lt, ofParts, dif_neg hlt, if_neg hne]
  | infinity negative =>
    rw [toBits, ofBits_word hcount, ofParts, dif_neg (Nat.lt_irrefl _), if_pos rfl]
  | finite negative rank =>
    rw [toBits, ofBits_word (Nat.lt_trans rank.isLt hcount), ofParts, dif_pos rank.isLt]

/-! ## Order -/

/-- The place on the number line, as a signed rank; both zeros lie at 0, and the infinities lie just
beyond the finite numbers. -/
def position? : Double → Option Int
  | nan => none
  | infinity negative => some (signed negative rankCount)
  | finite negative rank => some (signed negative rank)

/-- Compares two places; no comparison holds of what has no place. -/
def compareBy (holds : Int → Int → Bool) (x y : Double) : Bool :=
  match x.position?, y.position? with
  | some p, some q => holds p q
  | _, _ => false

/-- Numeric equality: the two zeros are equal, and what is no number equals nothing. -/
def eq (x y : Double) : Bool :=
  compareBy (fun p q => p == q) x y

/-- Strictly less. -/
def lt (x y : Double) : Bool :=
  compareBy (fun p q => p < q) x y

/-- Less or equal. -/
def le (x y : Double) : Bool :=
  compareBy (fun p q => p ≤ q) x y

/-- Tells whether a number lies strictly below zero. -/
def isNegative (x : Double) : Bool :=
  x.lt (zero false)

/-- Tells whether a number is a zero of either sign. -/
def isZero (x : Double) : Bool :=
  x.eq (zero false)

end Double

end RadixCalc
