import RadixCalc.Proofs.Formula.Traversal
import RadixCalc.Proofs.Worksheet.BindingOrder
import RadixCalc.Proofs.Worksheet.Numbers

/-!
# Bindings are a map

Names may be bound again. The bindings that are left are a map in the order in which its names first
came: each name has one value and one display, and both come from the last pair of that name.

* `Bindings.find?_ofList` looks up what is bound last, and `Bindings.map_name_ofList` is the order.
* `Bindings.replaceEach_inBraces` says what stands for a name in prose.
* `Worksheet.IsMapOf` puts this together, and `Worksheet.isMapOf_of_locale` says so of worksheets
  over numbers and over texts of numbers.
-/

namespace RadixCalc

open Passage (isPlain)

/-! ## Displays without one of the braces -/

/-- The separators put at most one of the two braces into a text that has none. -/
theorem Locale.brace_not_mem_localize (l : Locale) {text : Text}
    (h : ∀ c ∈ text, isPlain c = true) :
    '\x7b' ∉ l.localize 0 text ∨ '\x7d' ∉ l.localize 0 text := by
  have hmem : ∀ c ∈ l.localize 0 text, c = l.point ∨ isPlain c = true := by
    intro c hc
    obtain ⟨d, hd, hcd⟩ := List.mem_flatMap.1 hc
    split at hcd
    · exact .inl (List.mem_singleton.1 hcd)
    · rw [if_neg fun hgroup => absurd hgroup.2 (by decide), List.mem_singleton] at hcd
      exact .inr (hcd ▸ h d hd)
  by_cases hpoint : l.point = '\x7b'
  · refine .inr fun hclose => ?_
    rcases hmem _ hclose with heq | hplain
    · rw [hpoint] at heq
      exact absurd heq (by decide)
    · exact absurd hplain (by decide)
  · refine .inl fun hopen => ?_
    rcases hmem _ hopen with heq | hplain
    · exact hpoint heq.symm
    · exact absurd hplain (by decide)

theorem NumberSign.isPlain {text : Text} {negative : Bool} (h : NumberSign text negative) :
    ∀ c ∈ text, isPlain c = true := by
  cases h <;> simp [Passage.isPlain]

theorem Mantissa.isPlain {text : Text} {value : ℚ} (h : Mantissa text value) :
    ∀ c ∈ text, isPlain c = true := by
  cases h with
  | whole _ hwhole => exact fun c hc => isPlain_of_isDigit (hwhole c hc)
  | point _ hwhole hfraction =>
    exact List.forall_mem_append.2 ⟨fun c hc => isPlain_of_isDigit (hwhole c hc),
      List.forall_mem_cons.2 ⟨rfl, fun c hc => isPlain_of_isDigit (hfraction c hc)⟩⟩
  | fraction _ hfraction =>
    exact List.forall_mem_cons.2 ⟨rfl, fun c hc => isPlain_of_isDigit (hfraction c hc)⟩

theorem ExponentMark.isPlain {text : Text} {power : ℤ} (h : ExponentMark text power) :
    ∀ c ∈ text, isPlain c = true := by
  cases h with
  | absent => exact List.forall_mem_nil _
  | written hletter hsign _ hfigures =>
    refine List.forall_mem_cons.2 ⟨?_, List.forall_mem_append.2
      ⟨hsign.isPlain, fun c hc => isPlain_of_isDigit (hfigures c hc)⟩⟩
    rcases hletter with rfl | rfl <;> rfl

theorem IsNumeric.isPlain {text : Text} (h : IsNumeric text) :
    ∀ c ∈ text.trim, isPlain c = true := by
  obtain ⟨negative, magnitude, sign, mantissa, exponent, value, power, heq, hsign, hmantissa,
    hexponent, -⟩ := h
  rw [heq]
  exact List.forall_mem_append.2
    ⟨hsign.isPlain, List.forall_mem_append.2 ⟨hmantissa.isPlain, hexponent.isPlain⟩⟩

theorem isNumeric_of_isSome {text : Text} (h : (Double.ofText? text).isSome = true) :
    IsNumeric text := by
  by_contra hnot
  rw [Double.reads_none_iff.2 hnot] at h
  cases h

/-! ## Replacing what does not occur -/

theorem Text.replaceAll_of_not_infix {needle text : Text} (h : ¬needle <:+: text)
    (written : Text) : replaceAll needle written text = text := by
  induction text with
  | nil => rw [replaceAll]
  | cons c cs ih =>
    have hcs : ¬needle <:+: cs := fun hcs => h (hcs.trans (List.suffix_cons c cs).isInfix)
    rw [replaceAll_cons written fun hfront => h hfront.isInfix, ih hcs]

theorem not_inBraces_infix {name text : Text} (h : '\x7b' ∉ text ∨ '\x7d' ∉ text) :
    ¬inBraces name <:+: text := by
  intro hpart
  rcases h with h | h
  · exact h (hpart.subset (by simp [inBraces]))
  · exact h (hpart.subset (by simp [inBraces]))

/-- Within a name in braces stands no other name in braces. -/
theorem not_inBraces_infix_inBraces {name other : Text} (hname : ∀ c ∈ name, isPlain c = true)
    (hne : other ≠ name) : ¬inBraces other <:+: inBraces name := by
  obtain ⟨hopen, hclose⟩ := Passage.not_mem_of_isPlain hname
  rintro ⟨front, back, heq⟩
  rw [List.append_assoc, Bindings.inBraces_append, ← List.append_nil (inBraces name),
    Bindings.inBraces_append] at heq
  cases front with
  | nil =>
    obtain ⟨between, rfl, hbetween⟩ :=
      Bindings.exists_eq_append_of_not_mem hclose (List.cons.inj heq).2.symm
    cases between with
    | nil => exact hne (List.append_nil name)
    | cons c cs => simp at hbetween
  | cons c front =>
    have hmem : '\x7b' ∈ name ++ ['\x7d'] := by
      rw [← (List.cons.inj heq).2]
      simp
    exact hopen (by simpa using hmem)

namespace Bindings

/-! ## The map that a list of bindings makes -/

theorem map_name_bind (bs : Bindings) (b : Binding) :
    (bs.bind b).map Binding.name = noteName (bs.map Binding.name) b.name := by
  induction bs with
  | nil => rfl
  | cons c cs ih =>
    rw [bind]
    by_cases hname : c.name = b.name
    · simp [hname, noteName]
    · rw [if_neg hname, List.map_cons, ih, List.map_cons, noteName, noteName]
      by_cases hmem : b.name ∈ cs.map Binding.name
      · rw [if_pos hmem, if_pos (List.mem_cons_of_mem _ hmem)]
      · rw [if_neg hmem, if_neg (by simpa [Ne.symm hname] using hmem), List.cons_append]

/-- The names stand in the order in which they first occur. -/
theorem map_name_ofList (list : List Binding) :
    FirstOccurrences ((ofList list).map Binding.name) (list.map Binding.name) := by
  have hfold : (ofList list).map Binding.name = (list.map Binding.name).foldl noteName [] := by
    unfold ofList
    induction list using List.reverseRecOn with
    | nil => rfl
    | append_singleton list b ih =>
      rw [List.foldl_append, List.map_append, List.foldl_append, ← ih]
      exact map_name_bind _ b
  rw [hfold]
  exact firstOccurrences_foldl _

/-- What is bound to a name is the last binding of that name. -/
theorem find?_ofList (list : List Binding) (name : Text) :
    (ofList list).find? name = list.reverse.find? fun b => b.name = name := by
  unfold ofList
  induction list using List.reverseRecOn with
  | nil => rfl
  | append_singleton list b ih =>
    rw [List.foldl_append, List.reverse_append]
    show find? (bind b (list.foldl (fun bindings b => bindings.bind b) [])) name = _
    rw [find?_bind, ih]
    by_cases hname : b.name = name
    · simp [hname]
    · simp [hname]

/-- The last pair of a name decides what is bound to it. -/
theorem find?_ofList_map {α : Type} (value : α → Double) (display : α → Text)
    (pairs : List (Text × α)) (name : Text) :
    (ofList (pairs.map fun (n, x) => ⟨n, value x, display x⟩)).find? name =
      (pairs.reverse.lookup name).map fun x => ⟨name, value x, display x⟩ := by
  rw [find?_ofList, ← List.map_reverse]
  induction pairs.reverse with
  | nil => rfl
  | cons pair pairs ih =>
    obtain ⟨n, x⟩ := pair
    by_cases hname : n = name
    · simp [hname]
    · have hbeq : (name == n) = false := by simpa using Ne.symm hname
      rw [List.map_cons, List.find?_cons_of_neg (by simpa using hname), ih, List.lookup_cons, hbeq]

/-! ## Names in prose -/

theorem replaceEach_of_not_infix {ds : List Binding} {text : Text}
    (h : ∀ d ∈ ds, ¬inBraces d.name <:+: text) : replaceEach ds text = text := by
  induction ds with
  | nil => rfl
  | cons d ds ih =>
    have hd := Text.replaceAll_of_not_infix (h d List.mem_cons_self) d.display
    rw [replaceEach, List.foldl_cons, hd]
    exact ih fun b hb => h b (List.mem_cons_of_mem _ hb)

/-- A bound name in braces is replaced by its display. -/
theorem replaceEach_inBraces {bs : Bindings} (h : (bs.map Binding.name).Nodup) {b : Binding}
    (hb : b ∈ bs) (hname : ∀ c ∈ b.name, isPlain c = true)
    (hdisplay : '\x7b' ∉ b.display ∨ '\x7d' ∉ b.display) :
    replaceEach bs (inBraces b.name) = b.display := by
  obtain ⟨front, back, rfl⟩ := List.append_of_mem hb
  rw [List.map_append, List.map_cons] at h
  have hfront : ∀ d ∈ front, ¬inBraces d.name <:+: inBraces b.name := by
    intro d hd
    refine not_inBraces_infix_inBraces hname fun hsame => ?_
    exact List.disjoint_of_nodup_append h (List.mem_map_of_mem hd) (hsame ▸ List.mem_cons_self)
  have hback : ∀ d ∈ back, ¬inBraces d.name <:+: b.display := fun d _ =>
    not_inBraces_infix hdisplay
  have hreplace : Text.replaceAll (inBraces b.name) b.display (inBraces b.name) = b.display := by
    simpa [Text.replaceAll] using replaceAll_inBraces b.name b.display []
  rw [replaceEach_append, replaceEach_of_not_infix hfront, replaceEach, List.foldl_cons, hreplace]
  exact replaceEach_of_not_infix hback

end Bindings

namespace Worksheet

/-- The worksheet maps the names of the pairs, each to what its last pair gives. -/
structure IsMapOf {α : Type} (w : Worksheet) (pairs : List (Text × α)) (value : α → Option Double)
    (display : α → Text) : Prop where
  /-- The names are distinct and stand in the order in which they first occur. -/
  names : FirstOccurrences (w.bindings.entries.map Prod.fst) (pairs.map Prod.fst)
  /-- The value of a name is that of its last pair, and no other name has one. -/
  value?_eq : ∀ name, w.bindings.value? name = (pairs.reverse.lookup name).bind value
  /-- The entries are the names with their values. -/
  mem_entries : ∀ name v, (name, v) ∈ w.bindings.entries ↔ w.bindings.value? name = some v
  /-- Prose is filled in name by name, with the display of the last pair of each. -/
  fillProse_eq : ∀ text, w.fillProse text =
    (w.bindings.entries.map Prod.fst).foldl (fun text name => Text.replaceAll (inBraces name)
      (((pairs.reverse.lookup name).map display).getD []) text) text
  /-- So the display of its last pair stands for a name in braces. -/
  fillProse_inBraces : ∀ name x, (∀ c ∈ name, isPlain c = true) →
    pairs.reverse.lookup name = some x → w.fillProse (inBraces name) = display x

theorem map_fst_entries (bs : Bindings) : bs.entries.map Prod.fst = bs.map Binding.name := by
  rw [Bindings.entries, List.map_map]
  rfl

theorem mem_of_lookup_reverse {α : Type} {pairs : List (Text × α)} {name : Text} {x : α}
    (h : pairs.reverse.lookup name = some x) : (name, x) ∈ pairs := by
  obtain ⟨before, after, hpairs, -⟩ := List.lookup_eq_some_iff.1 h
  rw [← List.mem_reverse, hpairs]
  exact List.mem_append_right _ List.mem_cons_self

/-- Bindings that are made from pairs are a map, if none of their displays has both braces. -/
theorem isMapOf_ofList {α : Type} (locale : Locale) {value? : α → Option Double}
    (value : α → Double) (display : α → Text) {pairs : List (Text × α)}
    (hvalue : ∀ pair ∈ pairs, value? pair.2 = some (value pair.2))
    (hdisplay : ∀ pair ∈ pairs, '\x7b' ∉ display pair.2 ∨ '\x7d' ∉ display pair.2) :
    IsMapOf ⟨.ofList (pairs.map fun (name, x) => ⟨name, value x, display x⟩), locale⟩ pairs
      value? display := by
  have hnames := Bindings.map_name_ofList (pairs.map fun (name, x) => ⟨name, value x, display x⟩)
  have hfind := Bindings.find?_ofList_map value display pairs
  generalize Bindings.ofList (pairs.map fun (name, x) => ⟨name, value x, display x⟩) = bs
    at hnames hfind
  have hmem : ∀ {name b}, bs.find? name = some b ↔ b ∈ bs ∧ b.name = name :=
    Bindings.find?_eq_some_iff_of_nodup hnames.nodup
  constructor
  case names =>
    rw [List.map_map] at hnames
    rwa [map_fst_entries]
  case value?_eq =>
    intro name
    rw [Bindings.value?, hfind]
    cases hlookup : pairs.reverse.lookup name with
    | none => rfl
    | some x => exact (hvalue _ (mem_of_lookup_reverse hlookup)).symm
  case mem_entries =>
    intro name v
    rw [Bindings.value?, Option.map_eq_some_iff, Bindings.entries, List.mem_map]
    constructor
    · rintro ⟨b, hb, heq⟩
      cases heq
      exact ⟨b, hmem.2 ⟨hb, rfl⟩, rfl⟩
    · rintro ⟨b, hfound, rfl⟩
      obtain ⟨hb, rfl⟩ := hmem.1 hfound
      exact ⟨b, hb, rfl⟩
  case fillProse_eq =>
    intro text
    rw [map_fst_entries, List.foldl_map]
    refine List.foldl_ext _ _ _ fun text b hb => ?_
    have hbound := hfind b.name
    rw [hmem.2 ⟨hb, rfl⟩] at hbound
    obtain ⟨x, hlookup, hmade⟩ := Option.map_eq_some_iff.1 hbound.symm
    rw [hlookup, ← hmade]
    rfl
  case fillProse_inBraces =>
    intro name x hname hlookup
    have hbound := hfind name
    rw [hlookup] at hbound
    exact Bindings.replaceEach_inBraces hnames.nodup (hmem.1 hbound).1 hname
      (hdisplay _ (mem_of_lookup_reverse hlookup))

/-- Numbers given as texts are bound like numbers. -/
theorem ofTexts_eq_ofList (locale : Locale) {pairs : List (Text × Text)} (value : Text → Double)
    (hvalue : ∀ pair ∈ pairs, Double.ofText? pair.2 = some (value pair.2)) :
    Bindings.ofTexts locale pairs = .ok (.ofList (pairs.map fun (name, text) =>
      ⟨name, value text, locale.localize 0 text.trim⟩)) := by
  have hmap : (pairs.mapM fun pair => Bindings.ofText locale pair.1 pair.2) =
      .ok (pairs.map fun (name, text) => ⟨name, value text, locale.localize 0 text.trim⟩) := by
    induction pairs with
    | nil => rfl
    | cons pair pairs ih =>
      obtain ⟨hpair, hpairs⟩ := List.forall_mem_cons.1 hvalue
      rw [List.mapM_cons, Bindings.ofText, hpair, ih hpairs]
      rfl
  rw [Bindings.ofTexts_eq_map, hmap]
  rfl

theorem ofTexts_eq_ok {settings : Settings} {locale : Locale} (h : settings.locale = .ok locale)
    {pairs : List (Text × Text)} {bs : Bindings} (hbs : Bindings.ofTexts locale pairs = .ok bs) :
    ofTexts settings pairs = .ok ⟨bs, locale⟩ := by
  rw [ofTexts, h]
  simp only [hbs]

/-- A worksheet over numbers, or over texts that all are numbers, maps each name to the value of its
last pair and shows it by the display of that pair. -/
theorem isMapOf_of_locale {settings : Settings} {locale : Locale}
    (h : settings.locale = .ok locale) :
    (∀ pairs : List (Text × Double), ∃ w, ofValues settings pairs = .ok w ∧
      w.IsMapOf pairs some locale.simpleText) ∧
    (∀ pairs : List (Text × Text), (∀ pair ∈ pairs, IsNumeric pair.2) →
      ∃ w, ofTexts settings pairs = .ok w ∧
        w.IsMapOf pairs Double.ofText? fun text => locale.localize 0 text.trim) := by
  constructor
  · intro pairs
    refine ⟨⟨.ofValues locale pairs, locale⟩, by rw [ofValues, h], ?_⟩
    refine isMapOf_ofList locale id locale.simpleText (fun _ _ => rfl) ?_
    intro pair _
    exact locale.brace_not_mem_localize pair.2.isDisplay_simpleText.plain
  · intro pairs hnumeric
    let value : Text → Double := fun text => (Double.ofText? text).getD .nan
    have hvalue : ∀ pair ∈ pairs, Double.ofText? pair.2 = some (value pair.2) := by
      intro pair hpair
      cases hread : Double.ofText? pair.2 with
      | some v => simp [value, hread]
      | none => exact absurd (hnumeric pair hpair) (Double.reads_none_iff.1 hread)
    have hbindings := ofTexts_eq_ofList locale value hvalue
    refine ⟨_, ofTexts_eq_ok h hbindings, ?_⟩
    refine isMapOf_ofList locale value (fun text => locale.localize 0 text.trim) hvalue ?_
    intro pair hpair
    exact locale.brace_not_mem_localize (hnumeric pair hpair).isPlain

/-- A name that is bound again keeps its place and takes the new value and the new display. -/
theorem isMapOf_of_locale_again :
    Settings.standard.locale = .ok .standard ∧
      (∀ pair ∈ [(['b'], ['2']), (['a'], ['1']), (['b'], "3.50".toList)], IsNumeric pair.2) ∧
      ∃ w, ofTexts .standard [(['b'], ['2']), (['a'], ['1']), (['b'], "3.50".toList)] = .ok w ∧
        FirstOccurrences (w.bindings.entries.map Prod.fst) [['b'], ['a'], ['b']] ∧
        w.bindings.value? ['b'] = Double.ofText? "3.50".toList ∧
        w.bindings.value? ['z'] = none ∧
        w.fillProse "\x7bb\x7d".toList = "3.50".toList := by
  have hlocale : Settings.standard.locale = .ok .standard := rfl
  have hnumeric : ∀ pair ∈ [(['b'], ['2']), (['a'], ['1']), (['b'], "3.50".toList)],
      IsNumeric pair.2 := by
    refine List.forall_mem_cons.2 ⟨?_, List.forall_mem_cons.2 ⟨?_, List.forall_mem_singleton.2 ?_⟩⟩
    all_goals exact isNumeric_of_isSome (by decide +kernel)
  obtain ⟨w, hw, hmap⟩ := (isMapOf_of_locale hlocale).2 _ hnumeric
  refine ⟨hlocale, hnumeric, w, hw, hmap.names, hmap.value?_eq ['b'], hmap.value?_eq ['z'], ?_⟩
  exact hmap.fillProse_inBraces ['b'] "3.50".toList (List.forall_mem_singleton.2 rfl) rfl

end Worksheet

end RadixCalc
