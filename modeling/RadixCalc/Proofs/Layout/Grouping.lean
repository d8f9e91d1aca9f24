import Mathlib
import RadixCalc.Layout.Display

/-!
# Digits in groups

Groups are counted from the point, that is from the right, and `groupDigits` sets a mark wherever a
whole number of groups is still to come. A loop over the digits sees them from the left. It can find
the same places by their distance from the end of the first group, as long as it counts in numbers
that are large enough: here it counts in machine words, and has no outcome where a word overflows.

* `addWords?` and `subWords?` are sums and differences of words that do not overflow.
* `writeGroups?` is the loop; `isMarked?_eq` is its step and `writeGroups?_eq` says that it writes
  what `groupDigits` writes.
* `InGroups` says which pieces a text in groups falls into.
* `groupDigits_groups` puts this together: the loop never overflows, the marks fall away again, and
  all groups but the first are full.
-/

namespace RadixCalc

/-! ## Words -/

/-- The sum of two words, unless it overflows. -/
def addWords? (a b : UInt64) : Option UInt64 :=
  if a.toBitVec.uaddOverflow b.toBitVec then none else some (a + b)

/-- The difference of two words, unless it overflows. -/
def subWords? (a b : UInt64) : Option UInt64 :=
  if a.toBitVec.usubOverflow b.toBitVec then none else some (a - b)

theorem exists_addWords? {a b : UInt64} (h : a.toNat + b.toNat < 2 ^ 64) :
    ∃ c, addWords? a b = some c ∧ c.toNat = a.toNat + b.toNat := by
  have hfits : ¬a.toBitVec.uaddOverflow b.toBitVec := by
    simpa [BitVec.uaddOverflow] using h
  exact ⟨a + b, if_neg hfits, BitVec.toNat_add_of_not_uaddOverflow hfits⟩

theorem exists_subWords? {a b : UInt64} (h : b.toNat ≤ a.toNat) :
    ∃ c, subWords? a b = some c ∧ c.toNat = a.toNat - b.toNat := by
  have hfits : ¬a.toBitVec.usubOverflow b.toBitVec := by
    simpa [BitVec.usubOverflow] using h
  exact ⟨a - b, if_neg hfits, BitVec.toNat_sub_of_not_usubOverflow hfits⟩

/-! ## The loop -/

/-- The number of bytes of a text in UTF-8. -/
def byteLength (text : Text) : ℕ :=
  (text.map Char.utf8Size).sum

/-- Whether a mark stands in front of the digit at a place, counted from the left. The first group
has `head` digits, or is full where `head` is 0. -/
def isMarked? (size head place : UInt64) : Option Bool :=
  if 0 < place then do
    let sum ← addWords? place size
    let distance ← subWords? sum head
    return distance % size = 0
  else return false

/-- Writes the digits from a place on, behind what is written already. -/
def writeFrom? (size head place : UInt64) (written : Text) : Text → Option Text
  | [] => some written
  | c :: cs => do
    let marked ← isMarked? size head place
    let next ← addWords? place 1
    let written := if marked then written ++ [groupMark] else written
    writeFrom? size head next (written ++ [c]) cs

/-- Writes digits in groups, from the left. How long the digits become with their marks is reckoned
beforehand. -/
def writeGroups? (size : UInt64) (ds : Text) : Option Text :=
  let length := UInt64.ofNat (byteLength ds)
  if size = 0 ∨ length ≤ size then some ds
  else do
    let _room ← addWords? length (length / size)
    writeFrom? size (length % size) 0 [] ds

/-- An ASCII text has one byte for each character. -/
theorem byteLength_eq_length {text : Text} (h : ∀ c ∈ text, c.toNat < 128) :
    byteLength text = text.length := by
  have hone : text.map Char.utf8Size = List.replicate text.length 1 :=
    List.map_eq_replicate_iff.2 fun c hc =>
      Char.utf8Size_eq_one_iff.2 (UInt32.le_iff_toNat_le.2 (Nat.le_of_lt_succ (h c hc)))
  rw [byteLength, hone, List.sum_replicate_nat, Nat.mul_one]

/-! ### The places of the marks -/

/-- The mark in front of digits that are a whole number of groups. -/
def markBefore (size : ℕ) (cs : Text) : Text :=
  if cs ≠ [] ∧ cs.length % size = 0 then [groupMark] else []

theorem groupDigits_cons (size : ℕ) (c : Char) (cs : Text) :
    groupDigits size (c :: cs) = c :: (markBefore size cs ++ groupDigits size cs) := by
  rw [groupDigits, markBefore]
  split <;> rfl

/-- A mark set by a condition, and the mark in front of the digits to come. -/
theorem append_mark (behindFirst : Prop) [Decidable behindFirst] (size : ℕ) (written : Text)
    (c : Char) (cs : Text) :
    (if behindFirst ∧ (c :: cs).length % size = 0 then written ++ [groupMark] else written) =
      written ++ if behindFirst then markBefore size (c :: cs) else [] := by
  by_cases hbehind : behindFirst
  · by_cases hwhole : (c :: cs).length % size = 0
    · rw [if_pos ⟨hbehind, hwhole⟩, if_pos hbehind, markBefore,
        if_pos ⟨List.cons_ne_nil _ _, hwhole⟩]
    · rw [if_neg (fun h => hwhole h.2), if_pos hbehind, markBefore, if_neg (fun h => hwhole h.2),
        List.append_nil]
  · rw [if_neg (fun h => hbehind h.1), if_neg hbehind, List.append_nil]

/-- A text that is no longer than a group is left alone. -/
theorem groupDigits_eq_self {size : ℕ} {ds : Text} (h : size = 0 ∨ ds.length ≤ size) :
    groupDigits size ds = ds := by
  induction ds with
  | nil => rfl
  | cons c cs ih =>
    have hnone : markBefore size cs = [] := by
      refine if_neg fun ⟨hne, hwhole⟩ => ?_
      have hpos := List.length_pos_iff.2 hne
      rcases h with rfl | hle
      · rw [Nat.mod_zero] at hwhole
        omega
      · have hlt : cs.length < size := hle
        rw [Nat.mod_eq_of_lt hlt] at hwhole
        omega
    rw [groupDigits_cons, hnone, List.nil_append, ih (h.imp_right Nat.le_of_succ_le)]

/-- The distance from the end of the first group and the number of digits to come add up to whole
groups. -/
theorem mod_distance_eq_zero_iff {size n i : ℕ} (hsize : 0 < size) (hi : i ≤ n) :
    (i + size - n % size) % size = 0 ↔ (n - i) % size = 0 := by
  have hlt : n % size < size := Nat.mod_lt n hsize
  have hdiv : n % size + size * (n / size) = n := Nat.mod_add_div n size
  have hsum : (i + size - n % size) + (n - i) = size * (n / size + 1) := by
    rw [Nat.mul_succ]
    omega
  have hwhole : size ∣ (i + size - n % size) + (n - i) := hsum ▸ Nat.dvd_mul_right _ _
  rw [← Nat.dvd_iff_mod_eq_zero, ← Nat.dvd_iff_mod_eq_zero]
  exact ⟨fun h => (Nat.dvd_add_right h).1 hwhole, fun h => (Nat.dvd_add_left h).1 hwhole⟩

variable {size n : UInt64}

/-- One step of the loop: behind the first digit a mark is set wherever whole groups are to come,
and neither the sum nor the difference overflows. -/
theorem isMarked?_eq (hsize : 0 < size.toNat) (hlt : size.toNat < n.toNat) (hn : n.toNat < 2 ^ 63)
    {place : UInt64} (hplace : place.toNat < n.toNat) :
    isMarked? size (n % size) place =
      some (decide (0 < place ∧ (n.toNat - place.toNat) % size.toNat = 0)) := by
  by_cases hpos : 0 < place
  · obtain ⟨sum, hsum, hsumNat⟩ :=
      exists_addWords? (show place.toNat + size.toNat < 2 ^ 64 by omega)
    -- `head` is taken off last, and the size of a group alone exceeds it
    have hhead : (n % size).toNat = n.toNat % size.toNat := UInt64.toNat_mod n size
    have hheadLt : n.toNat % size.toNat < size.toNat := Nat.mod_lt _ hsize
    obtain ⟨distance, hdistance, hdistanceNat⟩ :=
      exists_subWords? (show (n % size).toNat ≤ sum.toNat by omega)
    have hiff : distance % size = 0 ↔ (n.toNat - place.toNat) % size.toNat = 0 := by
      rw [← UInt64.toNat_inj, UInt64.toNat_mod, hdistanceNat, hsumNat, hhead]
      exact mod_distance_eq_zero_iff hsize hplace.le
    rw [isMarked?, if_pos hpos, hsum]
    simp [hdistance, hiff, hpos]
  · rw [isMarked?, if_neg hpos]
    simp [hpos]

/-- The whole loop, from any place on: it writes the digits to come in groups, and a mark before
them where it has one to set. -/
theorem writeFrom?_eq (hsize : 0 < size.toNat) (hlt : size.toNat < n.toNat) (hn : n.toNat < 2 ^ 63)
    {place : UInt64} {written cs : Text} (hplace : place.toNat + cs.length = n.toNat) :
    writeFrom? size (n % size) place written cs =
      some (written ++ ((if 0 < place then markBefore size.toNat cs else []) ++
        groupDigits size.toNat cs)) := by
  -- on the digits to come; with those passed they are always all `n` digits
  induction cs generalizing place written with
  | nil => simp [writeFrom?, markBefore, groupDigits]
  | cons c cs ih =>
    rw [List.length_cons] at hplace
    have hmarked := isMarked?_eq hsize hlt hn (show place.toNat < n.toNat by omega)
    obtain ⟨next, hnext, hnextNat⟩ :=
      exists_addWords? (a := place) (b := 1) (by rw [UInt64.toNat_one]; omega)
    rw [UInt64.toNat_one] at hnextNat
    have hnextPos : 0 < next := UInt64.lt_iff_toNat_lt.2 (by rw [hnextNat]; exact Nat.succ_pos _)
    have hahead : n.toNat - place.toNat = (c :: cs).length := by
      rw [List.length_cons]
      omega
    rw [writeFrom?, hmarked, hahead]
    simp only [Option.bind_eq_bind, Option.bind_some, hnext, decide_eq_true_eq]
    rw [append_mark, ih (by omega), if_pos hnextPos, groupDigits_cons]
    simp only [List.append_assoc, List.singleton_append]

/-- From the left and in words the same groups are written. -/
theorem writeGroups?_eq {ds : Text} (hascii : ∀ c ∈ ds, c.toNat < 128) (hlen : ds.length < 2 ^ 63) :
    writeGroups? size ds = some (groupDigits size.toNat ds) := by
  have hlength : (UInt64.ofNat (byteLength ds)).toNat = ds.length := by
    rw [byteLength_eq_length hascii]
    exact UInt64.toNat_ofNat_of_lt' (lt_trans hlen (by decide))
  have hshort : (size = 0 ∨ UInt64.ofNat (byteLength ds) ≤ size) ↔
      (size.toNat = 0 ∨ ds.length ≤ size.toNat) := by
    rw [← UInt64.toNat_inj, UInt64.le_iff_toNat_le, hlength, UInt64.toNat_zero]
  rw [writeGroups?]
  by_cases h : size.toNat = 0 ∨ ds.length ≤ size.toNat
  · rw [if_pos (hshort.2 h), groupDigits_eq_self h]
  · generalize UInt64.ofNat (byteLength ds) = length at hlength hshort ⊢
    have hmarks : (length / size).toNat ≤ length.toNat := by
      rw [UInt64.toNat_div]
      exact Nat.div_le_self _ _
    obtain ⟨room, hroom, -⟩ := exists_addWords? (a := length) (b := length / size) (by omega)
    have hrun : writeFrom? size (length % size) 0 [] ds = _ :=
      writeFrom?_eq (by omega) (by omega) (by omega)
        (by rw [hlength, UInt64.toNat_zero, Nat.zero_add])
    rw [if_neg (mt hshort.1 h), hroom, Option.bind_eq_bind, Option.bind_some, hrun]
    rfl

/-! ## The groups -/

/-- The pieces of a text of `n` digits in groups: none is empty, the first is no longer than a group
and the others are full. -/
structure InGroups (size n : ℕ) (first : Text) (others : List Text) : Prop where
  nonempty : ∀ g ∈ first :: others, g ≠ []
  le : first.length ≤ size
  full : ∀ g ∈ others, g.length = size
  length : first.length + size * others.length = n

namespace InGroups

variable {size n : ℕ} {first : Text} {others : List Text}

theorem single (hsize : 0 < size) (c : Char) : InGroups size 1 [c] [] where
  nonempty := by simp
  le := hsize
  full := nofun
  length := rfl

/-- In front of whole groups a digit begins a group. -/
theorem behindMark (h : InGroups size n first others) (hwhole : n % size = 0) (c : Char) :
    InGroups size (n + 1) [c] (first :: others) := by
  have hpos : 0 < first.length := List.length_pos_iff.2 (h.nonempty first (by simp))
  have hle := h.le
  have hlength := h.length
  have hfirst : first.length = size := by
    rw [← hlength, Nat.add_mul_mod_self_left] at hwhole
    exact le_antisymm hle (Nat.le_of_dvd hpos (Nat.dvd_of_mod_eq_zero hwhole))
  refine ⟨?_, ?_, ?_, ?_⟩
  · rintro g (_ | ⟨_, hg⟩)
    · exact List.cons_ne_nil _ _
    · exact h.nonempty g hg
  · exact hpos.trans_le hle
  · rintro g (_ | ⟨_, hg⟩)
    · exact hfirst
    · exact h.full g hg
  · rw [List.length_singleton, List.length_cons, Nat.mul_succ]
    omega

/-- Elsewhere it belongs to the group that comes next. -/
theorem extend (h : InGroups size n first others) (hpart : n % size ≠ 0) (c : Char) :
    InGroups size (n + 1) (c :: first) others := by
  have hle := h.le
  have hlength := h.length
  have hne : first.length ≠ size := by
    intro hfirst
    rw [← hlength, hfirst, Nat.add_mul_mod_self_left, Nat.mod_self] at hpart
    exact hpart rfl
  refine ⟨?_, ?_, h.full, ?_⟩
  · rintro g (_ | ⟨_, hg⟩)
    · exact List.cons_ne_nil _ _
    · exact h.nonempty g (List.mem_cons_of_mem _ hg)
  · rw [List.length_cons]
    omega
  · rw [List.length_cons]
    omega

end InGroups

/-- Parted at the marks, a text in groups is in groups. -/
theorem exists_splitOn_groupDigits {size : ℕ} (hsize : 0 < size) {ds : Text} (hne : ds ≠ [])
    (hmark : groupMark ∉ ds) :
    ∃ first others, (groupDigits size ds).splitOn groupMark = first :: others ∧
      InGroups size ds.length first others := by
  induction ds with
  | nil => exact absurd rfl hne
  | cons c cs ih =>
    rw [List.mem_cons, not_or] at hmark
    obtain ⟨hc, hcs⟩ := hmark
    have hcut : (groupDigits size (c :: cs)).splitOn groupMark =
        ((markBefore size cs ++ groupDigits size cs).splitOn groupMark).modifyHead (c :: ·) := by
      rw [groupDigits_cons, List.splitOn_cons_eq_if_modifyHead, if_neg (mt eq_of_beq (Ne.symm hc))]
    by_cases hlast : cs = []
    · subst hlast
      exact ⟨[c], [], hcut, .single hsize c⟩
    obtain ⟨first, others, hsplit, hgroups⟩ := ih hlast hcs
    by_cases hwhole : cs.length % size = 0
    · refine ⟨[c], first :: others, ?_, hgroups.behindMark hwhole c⟩
      rw [hcut, markBefore, if_pos ⟨hlast, hwhole⟩, List.singleton_append,
        List.splitOn_cons_eq_if_modifyHead, if_pos (beq_self_eq_true _), hsplit]
      rfl
    · refine ⟨c :: first, others, ?_, hgroups.extend hwhole c⟩
      rw [hcut, markBefore, if_neg (fun h => hwhole h.2), List.nil_append, hsplit]
      rfl

/-- A text of ASCII characters is written in groups without an overflow, whatever the size of a
group. Without the marks the text is as before. With groups of size 0 there is no mark; otherwise
the pieces between the marks are not empty, all but the first have the size of a group, and the
first has at most this size. -/
theorem groupDigits_groups (size : UInt64) {ds : Text} (hne : ds ≠ [])
    (hascii : ∀ c ∈ ds, c.toNat < 128) (hmark : groupMark ∉ ds) (hlen : ds.length < 2 ^ 63) :
    writeGroups? size ds = some (groupDigits size.toNat ds) ∧
    (groupDigits size.toNat ds).filter (· != groupMark) = ds ∧
    (size = 0 → groupMark ∉ groupDigits size.toNat ds) ∧
    (0 < size → ∃ first others,
      (groupDigits size.toNat ds).splitOn groupMark = first :: others ∧
      InGroups size.toNat ds.length first others) := by
  refine ⟨writeGroups?_eq hascii hlen, ?_, ?_, ?_⟩
  · exact filter_groupDigits _ fun c hc => by rintro rfl; exact hmark hc
  · rintro rfl
    rwa [UInt64.toNat_zero, groupDigits_eq_self (.inl rfl)]
  · intro hsize
    exact exists_splitOn_groupDigits (UInt64.lt_iff_toNat_lt.1 hsize) hne hmark

/-- Seven figures in groups of three. -/
theorem groupDigits_groups_thousands :
    let ds : Text := ['1', '2', '3', '4', '5', '6', '7']
    let text : Text := ['1', '_', '2', '3', '4', '_', '5', '6', '7']
    writeGroups? 3 ds = some text ∧ text.filter (· != groupMark) = ds ∧
    ∃ first others, text.splitOn groupMark = first :: others ∧ InGroups 3 7 first others := by
  intro ds text
  have hne : ds ≠ [] := List.cons_ne_nil _ _
  have hascii : ∀ c ∈ ds, c.toNat < 128 := by simp [ds]
  have htext : groupDigits (3 : UInt64).toNat ds = text := rfl
  obtain ⟨hrun, hfilter, -, hgroups⟩ := groupDigits_groups 3 hne hascii (by decide) (by decide)
  rw [htext] at hrun hfilter hgroups
  exact ⟨hrun, hfilter, hgroups (by decide)⟩

end RadixCalc
