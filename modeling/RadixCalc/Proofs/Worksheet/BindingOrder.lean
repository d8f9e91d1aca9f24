import RadixCalc.Proofs.Decimal.PlainDisplay
import RadixCalc.Proofs.Worksheet.Completion
import RadixCalc.Proofs.Worksheet.Filling

/-!
# The order of bindings

A worksheet binds its names in an order, and its prose is filled in by replacing one name after the
other in that order. A text comes out the same over every order of the same numbers, and then with
all names in its prose replaced at once, exactly where it fails or no display in it completes a
name (`Worksheet.fill_perm_iff`).

* `Worksheet.assemble` fills in passages, with the prose filled in by any function.
* `Worksheet.fillAtOnce` fills in a text with the names in its prose replaced at once.
* `Worksheet.FillsAlike` says that every order of some numbers gives the same outcome.
* `Worksheet.fill_perm_completed` is a text for which the order matters.
-/

namespace RadixCalc

/-! ## Bindings of numbers -/

namespace Bindings

theorem bind_of_not_mem {bs : Bindings} {b : Binding} (h : b.name ∉ bs.map Binding.name) :
    bs.bind b = bs ++ [b] := by
  induction bs with
  | nil => rfl
  | cons c bs ih =>
    rw [List.map_cons] at h
    obtain ⟨hc, hbs⟩ := List.ne_and_not_mem_of_not_mem_cons h
    rw [bind, if_neg (Ne.symm hc), ih hbs, List.cons_append]

/-- Bindings of distinct names stand in the order in which they are bound. -/
theorem ofList_of_nodup {list : List Binding} (h : (list.map Binding.name).Nodup) :
    ofList list = list := by
  have hfold : ∀ (back front : List Binding), ((front ++ back).map Binding.name).Nodup →
      back.foldl (fun bindings b => Bindings.bind b bindings) front = front ++ back := by
    intro back
    induction back with
    | nil => simp
    | cons b back ih =>
      intro front hnodup
      have hnew : b.name ∉ front.map Binding.name := by
        intro hmem
        rw [List.map_append, List.map_cons] at hnodup
        exact List.disjoint_of_nodup_append hnodup hmem List.mem_cons_self
      rw [List.foldl_cons, bind_of_not_mem hnew, ih _ (by simpa using hnodup), List.append_assoc]
      rfl
  exact hfold list [] h

/-- The bindings of numbers, displayed plainly. -/
def ofNumbers (pairs : List (Text × Double)) : Bindings :=
  pairs.map fun (name, value) => ofValue .standard name value

theorem map_name_ofNumbers (pairs : List (Text × Double)) :
    (ofNumbers pairs).map Binding.name = pairs.map Prod.fst := by
  rw [ofNumbers, List.map_map]
  rfl

theorem ofNumbers_perm {pairs pairs' : List (Text × Double)} (h : pairs.Perm pairs') :
    List.Perm (ofNumbers pairs) (ofNumbers pairs') :=
  h.map _

/-- Distinct names without braces can be told apart in prose, and so can the displays of their
numbers. -/
theorem apart_ofNumbers {pairs : List (Text × Double)} (hnodup : (pairs.map Prod.fst).Nodup)
    (hname : ∀ pair ∈ pairs, ∀ c ∈ pair.1, Passage.isPlain c = true) :
    (ofNumbers pairs).Apart ∧ ∀ b ∈ ofNumbers pairs, b.display ≠ [] := by
  have hdisplay : ∀ b ∈ ofNumbers pairs, b.display.IsDisplay := by
    intro b hb
    obtain ⟨⟨name, value⟩, -, rfl⟩ := List.mem_map.1 hb
    show (Locale.standard.simpleText value).IsDisplay
    rw [Locale.simpleText_standard]
    exact value.isDisplay_simpleText
  refine ⟨⟨by rwa [map_name_ofNumbers], ?_, fun b hb => (hdisplay b hb).plain⟩,
    fun b hb => (hdisplay b hb).ne_nil⟩
  intro b hb
  obtain ⟨pair, hpair, rfl⟩ := List.mem_map.1 hb
  exact hname pair hpair

theorem Apart.perm {bs bs' : Bindings} (h : bs.Apart) (hperm : List.Perm bs' bs) : bs'.Apart :=
  ⟨(hperm.map Binding.name).nodup_iff.2 h.nodup, fun b hb => h.name b (hperm.mem_iff.1 hb),
    fun b hb => h.display b (hperm.mem_iff.1 hb)⟩

theorem Apart.find?_eq_some_iff {bs : Bindings} (h : bs.Apart) {name : Text} {b : Binding} :
    bs.find? name = some b ↔ b ∈ bs ∧ b.name = name :=
  find?_eq_some_iff_of_nodup h.nodup

/-- The value of a name does not depend on the order of the bindings. -/
theorem Apart.value?_perm {bs bs' : Bindings} (h : bs.Apart) (hperm : List.Perm bs' bs) :
    bs'.value? = bs.value? := by
  funext name
  have hfind : bs'.find? name = bs.find? name := by
    ext b
    rw [(h.perm hperm).find?_eq_some_iff, h.find?_eq_some_iff, hperm.mem_iff]
  rw [value?, value?, hfind]

end Bindings

/-! ## Filling in with prose in another way -/

namespace Worksheet

/-- Passages filled in from left to right, the prose in this way. -/
def assemble (w : Worksheet) (prose : Text → Text) : List Passage → Except Failure Text
  | [] => .ok []
  | .prose text :: passages => do
    let filled ← assemble w prose passages
    pure (prose text ++ filled)
  | .formula directive expression :: passages => do
    let v ← w.calculate expression
    let filled ← assemble w prose passages
    pure (w.showBy directive v ++ filled)

/-- A text filled in with the names in its prose replaced at once. -/
def fillAtOnce (w : Worksheet) (text : Text) : Except Failure Text :=
  w.assemble w.bindings.substitute (Passage.ofText text)

variable (w : Worksheet)

theorem fill_eq_assemble (text : Text) :
    w.fill text = w.assemble w.fillProse (Passage.ofText text) := by
  rw [fill]
  induction Passage.ofText text with
  | nil => rfl
  | cons passage passages ih =>
    rw [List.mapM_cons]
    cases passage with
    | prose text =>
      rw [assemble, ← ih]
      cases passages.mapM w.fillPassage with
      | error e => rfl
      | ok texts => rfl
    | formula directive expression =>
      rw [assemble, ← ih, fillPassage]
      cases w.calculate expression with
      | error e => rfl
      | ok v =>
        cases passages.mapM w.fillPassage with
        | error e => rfl
        | ok texts => rfl

/-- Whether passages fail does not depend on how their prose is filled in. -/
theorem assemble_eq_error_iff (prose prose' : Text → Text) {passages : List Passage}
    {e : Failure} :
    w.assemble prose passages = .error e ↔ w.assemble prose' passages = .error e := by
  induction passages with
  | nil => exact iff_of_false nofun nofun
  | cons passage passages ih =>
    cases passage with
    | prose text =>
      rw [assemble, assemble, bind_pure_eq_error_iff, bind_pure_eq_error_iff, ih]
    | formula directive expression =>
      rw [assemble, assemble]
      cases w.calculate expression with
      | error e' => exact Iff.rfl
      | ok v => exact bind_pure_eq_error_iff.trans (ih.trans bind_pure_eq_error_iff.symm)

theorem assemble_congr {prose prose' : Text → Text} {passages : List Passage}
    (h : ∀ text, .prose text ∈ passages → prose text = prose' text) :
    w.assemble prose passages = w.assemble prose' passages := by
  induction passages with
  | nil => rfl
  | cons passage passages ih =>
    have ih := ih fun text htext => h text (List.mem_cons_of_mem _ htext)
    cases passage with
    | prose text => rw [assemble, assemble, ih, h text List.mem_cons_self]
    | formula directive expression => rw [assemble, assemble, ih]

/-- What is filled in depends on the bindings only through the values of the names. -/
theorem assemble_withBindings {bs : Bindings} (h : bs.value? = w.bindings.value?)
    (prose : Text → Text) (passages : List Passage) :
    assemble ⟨bs, w.locale⟩ prose passages = w.assemble prose passages := by
  have hcalculate : calculate ⟨bs, w.locale⟩ = w.calculate := by
    funext expression
    rw [calculate, calculate, h]
  induction passages with
  | nil => rfl
  | cons passage passages ih =>
    cases passage with
    | prose text => rw [assemble, assemble, ih]
    | formula directive expression =>
      rw [assemble, assemble, ih, hcalculate]
      rfl

/-- Where the prose parts for the first time the whole text parts. -/
theorem parts_of_assemble {prose prose' : Text → Text} {front back : List Passage} {text : Text}
    (hfront : ∀ p, .prose p ∈ front → prose p = prose' p)
    (hparts : Text.Parts (prose text) (prose' text)) {filled filled' : Text}
    (h : w.assemble prose (front ++ .prose text :: back) = .ok filled)
    (h' : w.assemble prose' (front ++ .prose text :: back) = .ok filled') :
    Text.Parts filled filled' := by
  induction front generalizing filled filled' with
  | nil =>
    rw [List.nil_append, assemble, bind_pure_eq_ok_iff] at h h'
    obtain ⟨behind, -, rfl⟩ := h
    obtain ⟨behind', -, rfl⟩ := h'
    exact hparts.append_right behind behind'
  | cons passage front ih =>
    have ih {x y : Text} := @ih (fun p hp => hfront p (List.mem_cons_of_mem _ hp)) x y
    cases passage with
    | prose p =>
      rw [List.cons_append, assemble, bind_pure_eq_ok_iff] at h h'
      obtain ⟨behind, hbehind, rfl⟩ := h
      obtain ⟨behind', hbehind', rfl⟩ := h'
      rw [hfront p List.mem_cons_self]
      exact (ih hbehind hbehind').append_left _
    | formula directive expression =>
      rw [List.cons_append, assemble] at h h'
      cases hv : w.calculate expression with
      | error e =>
        rw [hv] at h
        cases h
      | ok v =>
        rw [hv] at h h'
        obtain ⟨behind, hbehind, rfl⟩ := bind_pure_eq_ok_iff.1 h
        obtain ⟨behind', hbehind', rfl⟩ := bind_pure_eq_ok_iff.1 h'
        exact (ih hbehind hbehind').append_left _

end Worksheet

/-! ## Orders -/

/-- Displays complete a name somewhere in the prose of a text. -/
def Bindings.CompletesIn (bs : Bindings) (text : Text) : Prop :=
  ∃ p, .prose p ∈ Passage.ofText text ∧ ∃ c ∈ bs, Completes c (bs.pieces p)

namespace Worksheet

variable {bs : Bindings} (h : bs.Apart) (locale : Locale) (text : Text)

include h in
theorem fill_perm {bs' : Bindings} (hperm : List.Perm bs' bs) :
    fill ⟨bs', locale⟩ text =
      assemble ⟨bs, locale⟩ (Bindings.replaceEach bs') (Passage.ofText text) := by
  rw [fill_eq_assemble]
  exact assemble_withBindings ⟨bs, locale⟩ (h.value?_perm hperm) _ _

include h in
/-- A text that fails, or in which no name is completed, is filled in alike in every order. -/
theorem fill_eq_fillAtOnce {bs' : Bindings} (hperm : List.Perm bs' bs)
    (hfree : (∃ e, fill ⟨bs, locale⟩ text = .error e) ∨ ¬bs.CompletesIn text) :
    fill ⟨bs', locale⟩ text = fillAtOnce ⟨bs, locale⟩ text := by
  rw [fill_perm h locale text hperm, fillAtOnce]
  rcases hfree with ⟨e, he⟩ | hfree
  · rw [fill_eq_assemble] at he
    rw [(assemble_eq_error_iff _ _ _).1 he, (assemble_eq_error_iff _ _ _).1 he]
  · refine assemble_congr _ fun p hp => ?_
    exact Bindings.replaceEach_eq_substitute h (fun d hd hat => hfree ⟨p, hp, d, hd, hat⟩) hperm

include h in
/-- A completed name shows whether it comes first or last. -/
theorem exists_fill_ne (hne : ∀ b ∈ bs, b.display ≠ [])
    (hfill : ∀ e, fill ⟨bs, locale⟩ text ≠ .error e) (hcompletes : bs.CompletesIn text) :
    ∃ c ∈ bs, ∀ ds, (c :: ds).Perm bs →
      fill ⟨c :: ds, locale⟩ text ≠ fill ⟨ds ++ [c], locale⟩ text := by
  obtain ⟨front, passage, back, hsplit, ⟨p, rfl, hp⟩, hfront⟩ :=
    exists_first (P := fun passage => ∃ p, passage = Passage.prose p ∧
      ∃ c ∈ bs, Bindings.Completes c (bs.pieces p))
      (hcompletes.elim fun p hp => ⟨.prose p, hp.1, p, rfl, hp.2⟩)
  obtain ⟨c, hc, l, inner, r, hfirst⟩ := Bindings.exists_completesFirst hp
  refine ⟨c, hc, fun ds hds heq => ?_⟩
  have hds' : (ds ++ [c]).Perm bs := (List.perm_append_singleton c ds).trans hds
  have hbefore : ∀ q, .prose q ∈ front →
      Bindings.replaceEach (c :: ds) q = Bindings.replaceEach (ds ++ [c]) q := by
    intro q hq
    have hfree : ∀ d ∈ bs, ¬Bindings.Completes d (bs.pieces q) := fun d hd hat =>
      hfront _ hq ⟨q, rfl, d, hd, hat⟩
    rw [Bindings.replaceEach_eq_substitute h hfree hds,
      Bindings.replaceEach_eq_substitute h hfree hds']
  have hparts := Bindings.parts_of_completesFirst h hc (Bindings.scanned_pieces h p) hfirst hds
    (hne c hc)
  rw [Bindings.flatMap_pieces] at hparts
  rw [fill_perm h locale text hds, fill_perm h locale text hds'] at heq
  cases hfilled : assemble ⟨bs, locale⟩ (Bindings.replaceEach (c :: ds)) (Passage.ofText text) with
  | error e =>
    refine hfill e ?_
    rw [fill_eq_assemble]
    exact (assemble_eq_error_iff _ _ _).1 hfilled
  | ok filled =>
    rw [hfilled] at heq
    rw [hsplit] at hfilled heq
    exact (parts_of_assemble _ hbefore hparts hfilled heq.symm).ne rfl

theorem ofValues_standard {pairs : List (Text × Double)} (hnodup : (pairs.map Prod.fst).Nodup) :
    ofValues .standard pairs = .ok ⟨Bindings.ofNumbers pairs, .standard⟩ := by
  have hnames : ((Bindings.ofNumbers pairs).map Binding.name).Nodup := by
    rwa [Bindings.map_name_ofNumbers]
  exact congrArg (fun bs => Except.ok (Worksheet.mk bs .standard))
    (Bindings.ofList_of_nodup hnames)

section Numbers

variable {pairs : List (Text × Double)} (hnodup : (pairs.map Prod.fst).Nodup)
  (hname : ∀ pair ∈ pairs, ∀ c ∈ pair.1, Passage.isPlain c = true) (text : Text)

/-- The text is filled in with this outcome over every order of the numbers. -/
def FillsAlike (pairs : List (Text × Double)) (text : Text) (outcome : Except Failure Text) :
    Prop :=
  ∀ pairs', pairs'.Perm pairs →
    ∃ w, ofValues .standard pairs' = .ok w ∧ w.fill text = outcome

include hnodup in
theorem fillsAlike_iff {outcome : Except Failure Text} :
    FillsAlike pairs text outcome ↔
      ∀ pairs', pairs'.Perm pairs →
        fill ⟨Bindings.ofNumbers pairs', .standard⟩ text = outcome := by
  refine forall₂_congr fun pairs' hperm => ?_
  rw [ofValues_standard ((hperm.map Prod.fst).nodup_iff.2 hnodup)]
  constructor
  · rintro ⟨w, hw, hfill⟩
    cases hw
    exact hfill
  · exact fun hfill => ⟨_, rfl, hfill⟩

include hnodup hname in
theorem fillsAlike_of_free
    (hfree : (∃ e, fill ⟨Bindings.ofNumbers pairs, .standard⟩ text = .error e) ∨
      ¬(Bindings.ofNumbers pairs).CompletesIn text) :
    FillsAlike pairs text (fillAtOnce ⟨Bindings.ofNumbers pairs, .standard⟩ text) :=
  (fillsAlike_iff hnodup text).2 fun _ hperm =>
    fill_eq_fillAtOnce (Bindings.apart_ofNumbers hnodup hname).1 .standard text
      (Bindings.ofNumbers_perm hperm) hfree

include hnodup hname in
theorem free_of_fillsAlike {outcome : Except Failure Text}
    (halike : FillsAlike pairs text outcome) :
    (∃ e, fill ⟨Bindings.ofNumbers pairs, .standard⟩ text = .error e) ∨
      ¬(Bindings.ofNumbers pairs).CompletesIn text := by
  rw [fillsAlike_iff hnodup text] at halike
  by_contra hcontra
  obtain ⟨hfill, hcompletes⟩ := not_or.1 hcontra
  obtain ⟨hapart, hne⟩ := Bindings.apart_ofNumbers hnodup hname
  obtain ⟨c, hc, hparts⟩ := exists_fill_ne hapart .standard text hne (not_exists.1 hfill)
    (not_not.1 hcompletes)
  obtain ⟨⟨name, value⟩, hpair, rfl⟩ := List.mem_map.1 hc
  have hfirst : ((name, value) :: pairs.erase (name, value)).Perm pairs :=
    (List.perm_cons_erase hpair).symm
  have hlast : (pairs.erase (name, value) ++ [(name, value)]).Perm pairs :=
    (List.perm_append_singleton _ _).trans hfirst
  refine hparts (Bindings.ofNumbers (pairs.erase (name, value))) (Bindings.ofNumbers_perm hfirst) ?_
  have hlast := halike _ hlast
  rw [Bindings.ofNumbers, List.map_append] at hlast
  exact (halike _ hfirst).trans hlast.symm

end Numbers

/-- A text is filled in alike over every order of some numbers, and then with all names in its prose
replaced at once, exactly where it fails or its displays complete no name. -/
theorem fill_perm_iff (pairs : List (Text × Double)) (hnodup : (pairs.map Prod.fst).Nodup)
    (hname : ∀ pair ∈ pairs, ∀ c ∈ pair.1, Passage.isPlain c = true) (text : Text) :
    ∃ w, ofValues .standard pairs = .ok w ∧
      (FillsAlike pairs text (w.fill text) ↔
        (∃ e, w.fill text = .error e) ∨ ¬w.bindings.CompletesIn text) ∧
      (FillsAlike pairs text (w.fillAtOnce text) ↔
        (∃ e, w.fill text = .error e) ∨ ¬w.bindings.CompletesIn text) := by
  have hatOnce := fillsAlike_of_free hnodup hname text
  refine ⟨_, ofValues_standard hnodup, ⟨free_of_fillsAlike hnodup hname text, fun hfree => ?_⟩,
    free_of_fillsAlike hnodup hname text, hatOnce⟩
  have hself := (fillsAlike_iff hnodup text).1 (hatOnce hfree) pairs (.refl _)
  rw [hself]
  exact hatOnce hfree

/-- Every opening brace of the prose opens a bound name, so every order fills it in alike. -/
theorem fill_perm_iff_separate :
    FillsAlike [(['a'], .one), (['x', '1'], .ofNat 5)] "\x7bx1\x7d \x7ba\x7d".toList
      (.ok "5 1".toList) := by
  obtain ⟨w, hw, -, hatOnce⟩ := fill_perm_iff
    [(['a'], .one), (['x', '1'], .ofNat 5)] (by decide) (by simp [Passage.isPlain])
    "\x7bx1\x7d \x7ba\x7d".toList
  cases hw
  have hprose : Passage.ofText "\x7bx1\x7d \x7ba\x7d".toList =
      [.prose "\x7bx1\x7d \x7ba\x7d".toList] := by decide +kernel
  have hfree : ¬(Bindings.ofNumbers [(['a'], .one), (['x', '1'], .ofNat 5)]).CompletesIn
      "\x7bx1\x7d \x7ba\x7d".toList := by
    rintro ⟨p, hp, c, -, hat⟩
    rw [hprose, List.mem_singleton] at hp
    cases hp
    exact Bindings.not_completes_of_not_open (by decide +kernel) c hat
  have hvalue : fillAtOnce ⟨Bindings.ofNumbers [(['a'], .one), (['x', '1'], .ofNat 5)], .standard⟩
      "\x7bx1\x7d \x7ba\x7d".toList = .ok "5 1".toList := by decide +kernel
  exact hvalue ▸ hatOnce.2 (.inr hfree)

/-- The display of `a` completes the name `x1`, which is read where it comes later and stays in
braces where it comes first. -/
theorem fill_perm_completed :
    [(['x', '1'], .ofNat 5), (['a'], .one)].Perm [(['a'], Double.one), (['x', '1'], .ofNat 5)] ∧
      ∃ w w', ofValues .standard [(['a'], .one), (['x', '1'], .ofNat 5)] = .ok w ∧
        ofValues .standard [(['x', '1'], .ofNat 5), (['a'], .one)] = .ok w' ∧
        w.fill "\x7bx\x7ba\x7d\x7d".toList = .ok "5".toList ∧
        w'.fill "\x7bx\x7ba\x7d\x7d".toList = .ok "\x7bx1\x7d".toList :=
  ⟨.swap _ _ _, _, _, rfl, rfl, by decide +kernel, by decide +kernel⟩

end Worksheet

end RadixCalc
