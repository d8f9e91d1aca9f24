import RadixCalc.Proofs.Worksheet.Validation

/-!
# Escaped formulas

A formula that is written into a page is escaped: its `&`, `<` and `>` become entities. A
calculation replaces the entities one kind after the other, ampersands first, so what it replaces
may stand where no entity was written. This file says what the three replacements leave of an
escaped text. The first undoes the ampersands alone; each of the others undoes its own mark and
replaces its entity wherever the text had it from the beginning. So a text comes back as it was
unless it had an entity of `<` or `>` itself, and it is calculated as it was unless it had one of
`&`.

* `Worksheet.escape` is escaping in one pass.
* `Worksheet.replaceAll_amp` and `Worksheet.replaceAll_entity` are the replacements.
* `Worksheet.unescape_escape` puts them together, and `Worksheet.calculate_escape` is the result.
-/

namespace RadixCalc

/-! ## Replacement by something shorter -/

namespace Text

variable {needle written : Text}

theorem length_replaceAll_le (h : written.length ≤ needle.length) (text : Text) :
    (replaceAll needle written text).length ≤ text.length := by
  fun_induction replaceAll needle written text with
  | case1 => exact le_rfl
  | case2 c cs hnone ih => exact Nat.succ_le_succ ih
  | case3 c cs rest hrest hnil ih => exact Nat.succ_le_succ ih
  | case4 c cs rest hrest hne hlt ih =>
    rw [isPrefixOf?_eq_some_iff.1 hrest, List.length_append, List.length_append]
    exact Nat.add_le_add h ih

/-- A shorter text does not replace the needle unnoticed. -/
theorem length_replaceAll_lt (h : written.length < needle.length) {text : Text}
    (hmem : needle <:+: text) : (replaceAll needle written text).length < text.length := by
  have hne : needle ≠ [] := List.ne_nil_of_length_pos (Nat.zero_lt_of_lt h)
  induction text with
  | nil => exact absurd (List.infix_nil.1 hmem) hne
  | cons c cs ih =>
    by_cases hfront : needle <+: c :: cs
    · obtain ⟨rest, hsplit⟩ := hfront
      rw [← hsplit, replaceAll_append hne, List.length_append, List.length_append]
      exact Nat.add_lt_add_of_lt_of_le h (length_replaceAll_le h.le rest)
    · have hcs : needle <:+: cs := (List.infix_cons_iff.1 hmem).resolve_left hfront
      rw [replaceAll_cons written hfront]
      exact Nat.succ_lt_succ (ih hcs)

theorem replaceAll_eq_self_iff (h : written.length < needle.length) {text : Text} :
    replaceAll needle written text = text ↔ ¬needle <:+: text := by
  refine ⟨fun hself hmem => ?_, replaceAll_eq_self written⟩
  have hlt := length_replaceAll_lt h hmem
  rw [hself] at hlt
  exact lt_irrefl _ hlt

end Text

namespace Worksheet

/-! ## Escaping -/

/-- A character of an escaped text. -/
def escapeChar (c : Char) : Text :=
  if c = '&' then "&amp;".toList
  else if c = '<' then "&lt;".toList
  else if c = '>' then "&gt;".toList
  else [c]

/-- The text with an entity in place of every `&`, `<` and `>`. -/
def escape (text : Text) : Text :=
  text.flatMap escapeChar

/-- The marks that are escaped. -/
def marks : List Char := ['&', '<', '>']

/-- The text with an entity in place of some of the marks only. -/
def escapeOnly (marks : List Char) (text : Text) : Text :=
  text.flatMap fun c => if c ∈ marks then escapeChar c else [c]

theorem escapeOnly_marks (text : Text) : escapeOnly marks text = escape text := by
  refine congrArg text.flatMap (funext fun c => ?_)
  by_cases hc : c ∈ marks
  · rw [if_pos hc]
  · rw [if_neg hc]
    simp only [marks, List.mem_cons, List.not_mem_nil, or_false, not_or] at hc
    rw [escapeChar, if_neg hc.1, if_neg hc.2.1, if_neg hc.2.2]

theorem escapeOnly_nil (text : Text) : escapeOnly [] text = text := by
  simp [escapeOnly]

section Cons

variable {ms : List Char} {c : Char}

theorem escapeOnly_cons_of_mem (hc : c ∈ ms) (cs : Text) :
    escapeOnly ms (c :: cs) = escapeChar c ++ escapeOnly ms cs := by
  rw [escapeOnly, List.flatMap_cons, if_pos hc]
  rfl

theorem escapeOnly_cons_of_not_mem (hc : c ∉ ms) (cs : Text) :
    escapeOnly ms (c :: cs) = c :: escapeOnly ms cs := by
  rw [escapeOnly, List.flatMap_cons, if_neg hc]
  rfl

/-- A text without marks is escaped as it is. -/
theorem escapeOnly_append {front : Text} (h : ∀ d ∈ front, d ∉ ms) (rest : Text) :
    escapeOnly ms (front ++ rest) = front ++ escapeOnly ms rest := by
  induction front with
  | nil => rfl
  | cons d front ih =>
    obtain ⟨hd, hfront⟩ := List.forall_mem_cons.1 h
    rw [List.cons_append, escapeOnly_cons_of_not_mem hd, ih hfront, List.cons_append]

end Cons

/-! ## Entities in an escaped text -/

/-- An entity is an ampersand and characters none of which is a mark. -/
theorem exists_escapeChar {c : Char} (hc : c ∈ marks) :
    ∃ name, escapeChar c = '&' :: name ∧ ∀ d ∈ name, d ∉ marks := by
  simp only [marks, List.mem_cons, List.not_mem_nil, or_false] at hc
  rcases hc with rfl | rfl | rfl
  · exact ⟨['a', 'm', 'p', ';'], rfl, by simp [marks]⟩
  · exact ⟨['l', 't', ';'], rfl, by simp [marks]⟩
  · exact ⟨['g', 't', ';'], rfl, by simp [marks]⟩

/-- No entity is the beginning of another. -/
theorem not_escapeChar_prefix {c d : Char} (hc : c ∈ marks) (hd : d ∈ marks) (hne : c ≠ d)
    (rest : Text) : ¬escapeChar c <+: escapeChar d ++ rest := by
  simp only [marks, List.mem_cons, List.not_mem_nil, or_false] at hc hd
  rcases hc with rfl | rfl | rfl <;> rcases hd with rfl | rfl | rfl <;>
    first | exact absurd rfl hne | simp [escapeChar, List.cons_prefix_cons]

theorem replaceAll_escapeChar {c : Char} (hc : c ∈ marks) (written rest : Text) :
    Text.replaceAll (escapeChar c) written (escapeChar c ++ rest) =
      written ++ Text.replaceAll (escapeChar c) written rest := by
  obtain ⟨name, hname, -⟩ := exists_escapeChar hc
  refine Text.replaceAll_append ?_ written rest
  rw [hname]
  exact List.cons_ne_nil _ _

/-- Another entity stays. -/
theorem replaceAll_escapeChar_of_ne {c d : Char} (hc : c ∈ marks) (hd : d ∈ marks) (hne : c ≠ d)
    (written rest : Text) :
    Text.replaceAll (escapeChar c) written (escapeChar d ++ rest) =
      escapeChar d ++ Text.replaceAll (escapeChar c) written rest := by
  have hfront := not_escapeChar_prefix hc hd hne rest
  obtain ⟨name, hname, -⟩ := exists_escapeChar hc
  obtain ⟨name', hname', hclear⟩ := exists_escapeChar hd
  have hamp : '&' ∉ name' := fun hmem => hclear _ hmem (by simp [marks])
  rw [hname', List.cons_append] at hfront ⊢
  rw [Text.replaceAll_cons written hfront, hname, Text.replaceAll_of_not_mem hamp]
  rfl

/-- A character that is no ampersand stays. -/
theorem replaceAll_escapeChar_cons {c d : Char} (hc : c ∈ marks) (hd : d ≠ '&')
    (written rest : Text) :
    Text.replaceAll (escapeChar c) written (d :: rest) =
      d :: Text.replaceAll (escapeChar c) written rest := by
  obtain ⟨name, hname, -⟩ := exists_escapeChar hc
  rw [hname]
  have hmem : '&' ∉ [d] := by simpa using hd.symm
  exact Text.replaceAll_of_not_mem hmem name written rest

/-- A text that is no mark and begins an escaped text begins the text. -/
theorem prefix_of_prefix_escapeOnly {ms : List Char} (hms : ∀ m ∈ ms, m ∈ marks) {name text : Text}
    (hname : ∀ d ∈ name, d ∉ marks) (h : name <+: escapeOnly ms text) : name <+: text := by
  induction name generalizing text with
  | nil => exact List.nil_prefix
  | cons d name ih =>
    obtain ⟨hd, hname⟩ := List.forall_mem_cons.1 hname
    cases text with
    | nil => exact h
    | cons c cs =>
      by_cases hc : c ∈ ms
      · -- The escaped text would begin with an ampersand.
        obtain ⟨entity, hentity, -⟩ := exists_escapeChar (hms c hc)
        rw [escapeOnly_cons_of_mem hc, hentity, List.cons_append] at h
        obtain ⟨rfl, -⟩ := List.cons_prefix_cons.1 h
        exact absurd (by simp [marks]) hd
      · rw [escapeOnly_cons_of_not_mem hc] at h
        obtain ⟨rfl, hrest⟩ := List.cons_prefix_cons.1 h
        exact List.cons_prefix_cons.2 ⟨rfl, ih hname hrest⟩

/-! ## The three replacements -/

/-- The first replacement undoes the ampersands of an escaped text and nothing else. -/
theorem replaceAll_amp (text : Text) :
    Text.replaceAll (escapeChar '&') ['&'] (escapeOnly marks text) =
      escapeOnly ['<', '>'] text := by
  have hamp : '&' ∈ marks := by simp [marks]
  induction text with
  | nil => simp [escapeOnly, Text.replaceAll]
  | cons c cs ih =>
    by_cases hc : c = '&'
    · subst hc
      rw [escapeOnly_cons_of_mem hamp, replaceAll_escapeChar hamp, ih,
        escapeOnly_cons_of_not_mem (by simp)]
      rfl
    by_cases hmark : c ∈ marks
    · have hleft : c ∈ ['<', '>'] := by simpa [marks, hc] using hmark
      rw [escapeOnly_cons_of_mem hmark,
        replaceAll_escapeChar_of_ne hamp hmark (fun h => hc h.symm), ih,
        escapeOnly_cons_of_mem hleft]
    · have hleft : c ∉ ['<', '>'] := fun h => hmark (List.mem_cons_of_mem _ h)
      rw [escapeOnly_cons_of_not_mem hmark, replaceAll_escapeChar_cons hamp hc, ih,
        escapeOnly_cons_of_not_mem hleft]

/-- An entity of a mark that is escaped does not begin in front of an escaped text unless it begins
in front of the text. -/
theorem not_escapeChar_prefix_cons {c d : Char} {ms : List Char} (hms : ∀ m ∈ ms, m ∈ marks)
    (hc : c ∈ marks) {cs : Text} (h : ¬escapeChar c <+: d :: cs) :
    ¬escapeChar c <+: d :: escapeOnly ms cs := by
  obtain ⟨name, hname, hclear⟩ := exists_escapeChar hc
  rw [hname, List.cons_prefix_cons] at h ⊢
  rintro ⟨hd, hbehind⟩
  exact h ⟨hd, prefix_of_prefix_escapeOnly hms hclear hbehind⟩

/-- A later replacement undoes its own mark, and in the text it replaces its entity. -/
theorem replaceAll_entity (c : Char) (ms : List Char) (hms : ∀ m ∈ c :: ms, m ∈ marks)
    (hamp : '&' ∉ c :: ms) (hc : c ∉ ms) (text : Text) :
    Text.replaceAll (escapeChar c) [c] (escapeOnly (c :: ms) text) =
      escapeOnly ms (Text.replaceAll (escapeChar c) [c] text) := by
  have hmark : c ∈ marks := hms c List.mem_cons_self
  obtain ⟨name, hname, hclear⟩ := exists_escapeChar hmark
  have hne : escapeChar c ≠ [] := by
    rw [hname]
    exact List.cons_ne_nil _ _
  fun_induction Text.replaceAll (escapeChar c) [c] text with
  | case1 => simp [escapeOnly, Text.replaceAll]
  | case2 d cs hnone ih =>
    have hfront : ¬escapeChar c <+: d :: cs := by
      rintro ⟨rest, hrest⟩
      rw [Text.isPrefixOf?_eq_some_iff.2 hrest.symm] at hnone
      cases hnone
    by_cases hd : d = c
    · subst hd
      rw [escapeOnly_cons_of_mem List.mem_cons_self, replaceAll_escapeChar hmark, ih,
        escapeOnly_cons_of_not_mem hc]
      rfl
    by_cases hother : d ∈ ms
    · have hd' : d ∈ c :: ms := List.mem_cons_of_mem _ hother
      rw [escapeOnly_cons_of_mem hd', escapeOnly_cons_of_mem hother,
        replaceAll_escapeChar_of_ne hmark (hms d hd') (fun h => hd h.symm), ih]
    · have hd' : d ∉ c :: ms := by simp [hd, hother]
      rw [escapeOnly_cons_of_not_mem hd', escapeOnly_cons_of_not_mem hother,
        Text.replaceAll_cons _ (not_escapeChar_prefix_cons hms hmark hfront), ih]
  | case3 d cs rest hrest hnil => exact absurd hnil hne
  | case4 d cs rest hrest _ _ ih =>
    have hplain : ∀ d ∈ escapeChar c, d ∉ c :: ms := by
      rw [hname, List.forall_mem_cons]
      exact ⟨hamp, fun d hd hmem => hclear d hd (hms d hmem)⟩
    rw [Text.isPrefixOf?_eq_some_iff.1 hrest, escapeOnly_append hplain,
      replaceAll_escapeChar hmark, ih, List.singleton_append, List.singleton_append,
      escapeOnly_cons_of_not_mem hc]

/-- The three replacements one behind the other. -/
theorem unescape_eq (text : Text) :
    unescape text = Text.replaceAll "&gt;".toList ['>'] (Text.replaceAll "&lt;".toList ['<']
      (Text.replaceAll "&amp;".toList ['&'] text)) :=
  rfl

/-- Of an escaped text the three replacements leave the text with its own entities of `<` and `>`
replaced. -/
theorem unescape_escape (text : Text) :
    unescape (escape text) =
      Text.replaceAll "&gt;".toList ['>'] (Text.replaceAll "&lt;".toList ['<'] text) := by
  have hamp : Text.replaceAll "&amp;".toList ['&'] (escape text) = escapeOnly ['<', '>'] text := by
    rw [← escapeOnly_marks]
    exact replaceAll_amp text
  have hless : Text.replaceAll "&lt;".toList ['<'] (escapeOnly ['<', '>'] text) =
      escapeOnly ['>'] (Text.replaceAll "&lt;".toList ['<'] text) :=
    replaceAll_entity '<' ['>'] (by simp [marks]) (by simp) (by simp) text
  have hgreater (text : Text) : Text.replaceAll "&gt;".toList ['>'] (escapeOnly ['>'] text) =
      Text.replaceAll "&gt;".toList ['>'] text :=
    (replaceAll_entity '>' [] (by simp [marks]) (by simp) (by simp) text).trans (escapeOnly_nil _)
  rw [unescape_eq, hamp, hless, hgreater]

/-- A text comes back from escaping exactly where it has no entity of `<` or `>` itself. -/
theorem unescape_escape_eq_self_iff {text : Text} :
    unescape (escape text) = text ↔
      ¬"&lt;".toList <:+: text ∧ ¬"&gt;".toList <:+: text := by
  rw [unescape_escape]
  have hless : (['<'] : Text).length < "&lt;".toList.length := by decide
  have hgreater : (['>'] : Text).length < "&gt;".toList.length := by decide
  constructor
  · intro hself
    have hlt : ¬"&lt;".toList <:+: text := by
      intro hmem
      have hshort := Text.length_replaceAll_lt hless hmem
      have hle := Text.length_replaceAll_le hgreater.le
        (Text.replaceAll "&lt;".toList ['<'] text)
      rw [hself] at hle
      exact absurd hle (not_le.2 hshort)
    rw [Text.replaceAll_eq_self _ hlt] at hself
    exact ⟨hlt, (Text.replaceAll_eq_self_iff hgreater).1 hself⟩
  · rintro ⟨hlt, hgt⟩
    rw [Text.replaceAll_eq_self _ hlt, Text.replaceAll_eq_self _ hgt]

/-- Escaping does not change a calculation, the value or the failure, unless the formula itself has
an entity of an ampersand; and where it has none of the other two either, the text that is
calculated is the formula again. -/
theorem calculate_escape (w : Worksheet) (text : Text) :
    (¬"&amp;".toList <:+: text → w.calculate (escape text) = w.calculate text) ∧
    (unescape (escape text) = text ↔
      ¬"&lt;".toList <:+: text ∧ ¬"&gt;".toList <:+: text) := by
  refine ⟨fun hamp => ?_, unescape_escape_eq_self_iff⟩
  have hsame : unescape (escape text) = unescape text := by
    rw [unescape_escape, unescape_eq text, Text.replaceAll_eq_self _ hamp]
  rw [calculate, calculate, hsame]

/-- A formula with all three marks. -/
theorem calculate_escape_marks :
    ¬"&amp;".toList <:+: "2>1&1<2".toList ∧
    escape "2>1&1<2".toList = "2&gt;1&amp;1&lt;2".toList ∧
    calculate ⟨[], .standard⟩ "2&gt;1&amp;1&lt;2".toList = .ok .one := by
  have hclear : ¬"&amp;".toList <:+: "2>1&1<2".toList := by decide +kernel
  have hescape : escape "2>1&1<2".toList = "2&gt;1&amp;1&lt;2".toList := by decide +kernel
  have hvalue : calculate ⟨[], .standard⟩ "2>1&1<2".toList = .ok .one := by decide +kernel
  have hsame := (calculate_escape ⟨[], .standard⟩ "2>1&1<2".toList).1 hclear
  rw [hescape] at hsame
  exact ⟨hclear, hescape, hsame.trans hvalue⟩

end Worksheet
end RadixCalc
