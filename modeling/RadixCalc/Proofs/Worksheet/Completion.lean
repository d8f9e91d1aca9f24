import RadixCalc.Proofs.Worksheet.Substitution

/-!
# Completed names

Prose over bindings is filled in by replacing their names one after the other, each in the whole
prose. A display may then complete a name: in `{x{a}}` the display 1 of `a` completes the name `x1`,
which is read if it is replaced later and stays in braces if it was replaced before. Where no name
is completed, the order of the replacements does not matter.

* `Bindings.Completes` says that displays complete a name somewhere in the prose.
* `Bindings.replaceEach_eq_substitute` is replacement one after the other where they complete none.
* `Bindings.parts_of_completesFirst` is two orders of replacement that the first completed name in
  the prose tells apart.
-/

namespace RadixCalc

/-! ## Texts that part -/

namespace Text

/-- Two texts that differ in a character behind a common front. -/
def Parts (x y : Text) : Prop :=
  ∃ front c d u v, c ≠ d ∧ x = front ++ c :: u ∧ y = front ++ d :: v

theorem Parts.ne {x y : Text} (h : Parts x y) : x ≠ y := by
  obtain ⟨front, c, d, u, v, hcd, rfl, rfl⟩ := h
  intro heq
  exact hcd (List.cons.inj (List.append_cancel_left heq)).1

theorem Parts.append_left {x y : Text} (h : Parts x y) (front : Text) :
    Parts (front ++ x) (front ++ y) := by
  obtain ⟨middle, c, d, u, v, hcd, rfl, rfl⟩ := h
  exact ⟨front ++ middle, c, d, u, v, hcd, by simp, by simp⟩

theorem Parts.append_right {x y : Text} (h : Parts x y) (back back' : Text) :
    Parts (x ++ back) (y ++ back') := by
  obtain ⟨front, c, d, u, v, hcd, rfl, rfl⟩ := h
  exact ⟨front, c, d, u ++ back, v ++ back', hcd, by simp, by simp⟩

end Text

namespace Bindings

variable {bs : Bindings}

/-! ## Completed names -/

/-- Displays complete the name of `c` at a place of the prose: between two braces stand characters
and values that are written as this name, at least one value and not `c` itself. -/
structure CompletesAt (c : Binding) (ps l inner r : List Piece) : Prop where
  eq_enclosing : ps = enclosing l inner r
  written : inner.flatMap Piece.written = c.name
  exists_value : ∃ b, .value b ∈ inner
  not_mem : .value c ∉ inner

/-- Somewhere in the prose displays complete the name of `c`. -/
def Completes (c : Binding) (ps : List Piece) : Prop :=
  ∃ l inner r, CompletesAt c ps l inner r

/-- Where every opening brace opens a bound name, no name is completed. -/
theorem not_completes_of_not_open {ps : List Piece} (h : .char '\x7b' ∉ ps) (c : Binding) :
    ¬Completes c ps := by
  rintro ⟨l, inner, r, hat⟩
  refine h ?_
  rw [hat.eq_enclosing]
  exact List.mem_append_right l List.mem_cons_self

theorem flatMap_written {done : List Binding} {ps : List Piece}
    (h : ∀ b, .value b ∈ ps → b ∈ done) :
    ps.flatMap (Piece.textAt done) = ps.flatMap Piece.written := by
  refine List.flatMap_congr fun p hp => ?_
  cases p with
  | char c => rfl
  | value b => exact if_pos (h b hp)

/-- What reads as a bound name between two braces does so because of the displays in it. -/
theorem Scanned.of_read {ps : List Piece} (h : bs.Apart) (hps : bs.Scanned ps) {d : Binding}
    (hd : d ∈ bs) {done : List Binding} {l inner r : List Piece} (heq : ps = enclosing l inner r)
    (hread : inner.flatMap (Piece.textAt done) = d.name) :
    (∀ b, .value b ∈ inner → b ∈ done) ∧ (d ∉ done → CompletesAt d ps l inner r) := by
  have hdone : ∀ b, .value b ∈ inner → b ∈ done := by
    intro b hb
    by_contra hnew
    refine (h.not_mem_name hd).1 ?_
    rw [← hread]
    refine List.mem_flatMap.2 ⟨_, hb, ?_⟩
    rw [Piece.textAt, if_neg hnew]
    exact List.mem_cons_self
  refine ⟨hdone, fun hnew => ⟨heq, ?_, ?_, fun hmem => hnew (hdone d hmem)⟩⟩
  · rw [← hread, flatMap_written hdone]
  · -- Otherwise the name stands among the characters.
    by_contra hnone
    have hchars := eq_map_char (fun b hb => hnone ⟨b, hb⟩) done
    exact hps.tight d hd l r (by rw [heq, hchars, hread]; rfl)

/-! ## Replacing one name after the other -/

/-- A text with bound names in braces replaced by their displays, one name after the other. -/
def replaceEach (ds : List Binding) (text : Text) : Text :=
  ds.foldl (fun text b => Text.replaceAll (inBraces b.name) b.display text) text

theorem replaceEach_append (ds ds' : List Binding) (text : Text) :
    replaceEach (ds ++ ds') text = replaceEach ds' (replaceEach ds text) :=
  List.foldl_append

/-- Where no name is completed, only values are replaced. -/
theorem replaceEach_flatMap (h : bs.Apart) {ps : List Piece} (hps : bs.Scanned ps)
    (hfree : ∀ d ∈ bs, ¬Completes d ps) {ds done : List Binding} (hds : ∀ d ∈ ds, d ∈ bs)
    (hnodup : (done ++ ds).Nodup) :
    replaceEach ds (ps.flatMap (Piece.textAt done)) =
      ps.flatMap (Piece.textAt (ds.reverse ++ done)) := by
  induction ds generalizing done with
  | nil => rfl
  | cons d ds ih =>
    have hnew : d ∉ done := fun hd =>
      List.disjoint_of_nodup_append hnodup hd List.mem_cons_self
    have hstep := replaceAll_flatMap h (hds d List.mem_cons_self) hps.mem
      fun l inner r heq hread => hfree d (hds d List.mem_cons_self)
        ⟨l, inner, r, (hps.of_read h (hds d List.mem_cons_self) heq hread).2 hnew⟩
    have hnodup' : (d :: done ++ ds).Nodup :=
      (List.perm_middle.nodup_iff).1 hnodup
    rw [replaceEach, List.foldl_cons, hstep, ← replaceEach,
      ih (fun b hb => hds b (List.mem_cons_of_mem _ hb)) hnodup', List.reverse_cons,
      List.append_assoc]
    rfl

/-- Where no name is completed, replacing one name after the other, in any order, replaces all of
them at once. -/
theorem replaceEach_eq_substitute (h : bs.Apart) {text : Text}
    (hfree : ∀ d ∈ bs, ¬Completes d (bs.pieces text)) {ds : List Binding} (hds : ds.Perm bs) :
    replaceEach ds text = bs.substitute text := by
  have hps := scanned_pieces h text
  have hnodup : ([] ++ ds).Nodup := hds.nodup_iff.2 h.nodup.of_map
  have hall : ∀ b, .value b ∈ bs.pieces text → b ∈ ds.reverse ++ [] := fun b hb => by
    simpa using hds.mem_iff.2 (hps.mem b hb)
  rw [substitute, ← flatMap_written hall,
    ← replaceEach_flatMap h hps hfree (fun d hd => hds.mem_iff.1 hd) hnodup, flatMap_pieces]

/-! ## The first completed name -/

/-- The first place of the prose where displays complete a name. -/
structure CompletesFirst (bs : Bindings) (c : Binding) (ps l inner r : List Piece) : Prop
    extends CompletesAt c ps l inner r where
  least : ∀ d ∈ bs, ∀ l' inner' r', CompletesAt d ps l' inner' r' → l.length ≤ l'.length

theorem exists_completesFirst {ps : List Piece} (h : ∃ d ∈ bs, Completes d ps) :
    ∃ c ∈ bs, ∃ l inner r, bs.CompletesFirst c ps l inner r := by
  classical
  have hsome : ∃ n, ∃ c ∈ bs, ∃ l inner r, CompletesAt c ps l inner r ∧ l.length = n := by
    obtain ⟨c, hc, l, inner, r, hat⟩ := h
    exact ⟨l.length, c, hc, l, inner, r, hat, rfl⟩
  obtain ⟨c, hc, l, inner, r, hat, hlength⟩ := Nat.find_spec hsome
  refine ⟨c, hc, l, inner, r, hat, fun d hd l' inner' r' hat' => ?_⟩
  rw [hlength]
  exact Nat.find_min' hsome ⟨d, hd, l', inner', r', hat', rfl⟩

section First

variable {c : Binding} {ps l inner r : List Piece} (h : bs.Apart) (hc : c ∈ bs)
  (hps : bs.Scanned ps) (hfirst : bs.CompletesFirst c ps l inner r)

include h hc in
theorem CompletesAt.not_mem_brace (hat : CompletesAt c ps l inner r) :
    .char '\x7b' ∉ inner ∧ .char '\x7d' ∉ inner := by
  have hchar : ∀ x : Char, .char x ∈ inner → x ∈ c.name := fun x hx => by
    rw [← hat.written]
    exact List.mem_flatMap.2 ⟨_, hx, List.mem_singleton_self x⟩
  exact ⟨fun hx => (h.not_mem_name hc).1 (hchar _ hx), fun hx => (h.not_mem_name hc).2 (hchar _ hx)⟩

include h hc hps hfirst in
/-- No name but `c` can be read before the first completed name is closed, and `c` itself only after
another value has been replaced. -/
theorem not_read_of_completesFirst {d : Binding} (hd : d ∈ bs) {done : List Binding}
    (hnew : d ∉ done) (hdc : d = c → done = []) {l' inner' r' : List Piece}
    (heq : enclosing l inner [] = enclosing l' inner' r') :
    inner'.flatMap (Piece.textAt done) ≠ d.name := by
  intro hread
  have happend : ∀ u v w t : List Piece, enclosing u v w ++ t = enclosing u v (w ++ t) := by
    simp [enclosing]
  have hps' : ps = enclosing l' inner' (r' ++ r) := by
    rw [hfirst.eq_enclosing, ← happend, ← heq, happend]
    rfl
  obtain ⟨hdone, hat⟩ := hps.of_read h hd hps' hread
  have hat := hat hnew
  obtain ⟨between, rfl⟩ : l <+: l' :=
    List.prefix_of_prefix_length_le ⟨_, rfl⟩ ⟨_, heq.symm⟩ (hfirst.least d hd _ _ _ hat)
  rw [enclosing, enclosing, List.append_assoc] at heq
  have heq := List.append_cancel_left heq
  cases between with
  | nil =>
    have hinner : inner = inner' :=
      eq_of_append_cons (hfirst.not_mem_brace h hc).2 (hat.not_mem_brace h hd).2
        (List.cons.inj heq).2
    have hsame : d = c := h.eq_of_name hd hc (by rw [← hat.written, ← hfirst.written, hinner])
    obtain ⟨b, hb⟩ := hat.exists_value
    have hmem := hdone b hb
    rw [hdc hsame] at hmem
    cases hmem
  | cons p between =>
    have hmem : Piece.char '\x7b' ∈ inner ++ [.char '\x7d'] := by
      rw [(List.cons.inj heq).2]
      simp
    rw [List.mem_append, List.mem_singleton] at hmem
    rcases hmem with hmem | hmem
    · exact (hfirst.not_mem_brace h hc).1 hmem
    · cases hmem

/-- The text of pieces that end with a closing brace ends with it. -/
theorem flatMap_enclosing (done : List Binding) (l inner : List Piece) :
    (enclosing l inner []).flatMap (Piece.textAt done) =
      l.flatMap (Piece.textAt done) ++ '\x7b' :: inner.flatMap (Piece.textAt done) ++ ['\x7d'] := by
  simp [enclosing, Piece.textAt]

include h hc hps hfirst in
/-- Replacing other names leaves the first completed name alone, whatever happens behind it. -/
theorem replaceAll_of_completesFirst {d : Binding} (hd : d ∈ bs) {done : List Binding}
    (hnew : d ∉ done) (hdc : d = c → done = []) (behind : Text) :
    Text.replaceAll (inBraces d.name) d.display
        ((enclosing l inner []).flatMap (Piece.textAt done) ++ behind) =
      (enclosing l inner []).flatMap (Piece.textAt (d :: done)) ++
        Text.replaceAll (inBraces d.name) d.display behind := by
  have hmem : ∀ b, .value b ∈ enclosing l inner [] → b ∈ bs := fun b hb => hps.mem b (by
    rw [hfirst.eq_enclosing]
    simp only [enclosing, List.mem_append, List.mem_cons, List.not_mem_nil] at hb ⊢
    tauto)
  rw [← replaceAll_flatMap h hd hmem
      (fun l' inner' r' heq => not_read_of_completesFirst h hc hps hfirst hd hnew hdc heq),
    flatMap_enclosing, List.append_assoc, List.singleton_append,
    replaceAll_close (h.not_mem_name hd).2]

include h hc hps hfirst in
theorem exists_replaceEach_of_completesFirst (done : List Binding)
    {ds : List Binding} (hds : ∀ d ∈ ds, d ∈ bs) (hnodup : (done ++ ds).Nodup)
    (hcds : c ∉ ds) (behind : Text) :
    ∃ behind', replaceEach ds ((enclosing l inner []).flatMap (Piece.textAt done) ++ behind) =
      (enclosing l inner []).flatMap (Piece.textAt (ds.reverse ++ done)) ++ behind' := by
  induction ds generalizing done behind with
  | nil => exact ⟨behind, rfl⟩
  | cons d ds ih =>
    obtain ⟨hcd, hcds⟩ := List.ne_and_not_mem_of_not_mem_cons hcds
    have hnew : d ∉ done := fun hd =>
      List.disjoint_of_nodup_append hnodup hd List.mem_cons_self
    have hnodup' : (d :: done ++ ds).Nodup := List.perm_middle.nodup_iff.1 hnodup
    obtain ⟨behind', hbehind'⟩ := ih (d :: done)
      (fun b hb => hds b (List.mem_cons_of_mem _ hb)) hnodup' hcds
      (Text.replaceAll (inBraces d.name) d.display behind)
    refine ⟨behind', ?_⟩
    rw [replaceEach, List.foldl_cons, replaceAll_of_completesFirst h hc hps hfirst
        (hds d List.mem_cons_self) hnew (fun hdc => absurd hdc.symm hcd), ← replaceEach,
      hbehind', List.reverse_cons, List.append_assoc]
    rfl

include h hc hps hfirst in
/-- In front of the first completed name nothing reads as it. -/
theorem replaceAll_front_of_completesFirst {done : List Binding} (hnew : c ∉ done) :
    Text.replaceAll (inBraces c.name) c.display
        ((l ++ [Piece.value c]).flatMap (Piece.textAt done)) =
      (l ++ [Piece.value c]).flatMap (Piece.textAt (c :: done)) := by
  refine replaceAll_flatMap h hc ?_ fun l' inner' r' heq hread => ?_
  · intro b hb
    rcases List.mem_append.1 hb with hb | hb
    · exact hps.mem b (by rw [hfirst.eq_enclosing]; exact List.mem_append_left _ hb)
    · cases List.mem_singleton.1 hb
      exact hc
  · rcases List.eq_nil_or_concat r' with rfl | ⟨r'', p, rfl⟩
    · have hlast : l ++ [.value c] = (l' ++ .char '\x7b' :: inner') ++ [.char '\x7d'] := by
        simpa [enclosing] using heq
      cases (List.append_inj' hlast rfl).2
    · have hlast : l ++ [.value c] = enclosing l' inner' r'' ++ [p] := by
        simpa [enclosing] using heq
      obtain ⟨rfl, -⟩ := List.append_inj' hlast rfl
      have hps' : ps =
          enclosing l' inner' (r'' ++ .char '\x7b' :: (inner ++ .char '\x7d' :: r)) := by
        rw [hfirst.eq_enclosing]
        simp [enclosing]
      have hle := hfirst.least c hc _ _ _ ((hps.of_read h hc hps' hread).2 hnew)
      simp only [enclosing, List.length_append, List.length_cons] at hle
      omega

include hfirst in
theorem CompletesFirst.flatMap_source :
    ps.flatMap (Piece.textAt []) =
      (enclosing l inner []).flatMap (Piece.textAt []) ++ r.flatMap (Piece.textAt []) := by
  rw [hfirst.eq_enclosing, ← List.flatMap_append]
  simp [enclosing]

section Orders

variable {ds : List Binding} (hds : (c :: ds).Perm bs)

include hps hfirst hds in
theorem CompletesFirst.mem_of_mem_front {b : Binding} (hb : .value b ∈ l) : b ∈ c :: ds :=
  hds.mem_iff.2 (hps.mem b (by rw [hfirst.eq_enclosing]; exact List.mem_append_left _ hb))

include hps hfirst hds in
theorem CompletesFirst.mem_of_mem_inner {b : Binding} (hb : .value b ∈ inner) : b ∈ ds := by
  have hbound : b ∈ c :: ds := hds.mem_iff.2
    (hps.mem b (by rw [hfirst.eq_enclosing]; simp [enclosing, hb]))
  exact (List.mem_cons.1 hbound).resolve_left fun hbc => hfirst.not_mem (hbc ▸ hb)

include h hc hps hfirst hds in
/-- A completed name that is replaced before the others stays in braces. -/
theorem replaceEach_cons_of_completesFirst :
    ∃ behind, replaceEach (c :: ds) (ps.flatMap (Piece.textAt [])) =
      l.flatMap Piece.written ++ '\x7b' :: behind := by
  have hnodup : (c :: ds).Nodup := hds.nodup_iff.2 h.nodup.of_map
  obtain ⟨behind, hbehind⟩ := exists_replaceEach_of_completesFirst h hc hps hfirst [c]
    (fun d hd => hds.mem_iff.1 (List.mem_cons_of_mem _ hd)) hnodup (List.nodup_cons.1 hnodup).1
    (Text.replaceAll (inBraces c.name) c.display (r.flatMap (Piece.textAt [])))
  have hfront : ∀ b, .value b ∈ l → b ∈ ds.reverse ++ [c] := fun b hb => by
    simpa [or_comm] using hfirst.mem_of_mem_front hps hds hb
  refine ⟨inner.flatMap (Piece.textAt (ds.reverse ++ [c])) ++ '\x7d' :: behind, ?_⟩
  rw [hfirst.flatMap_source, replaceEach, List.foldl_cons,
    replaceAll_of_completesFirst h hc hps hfirst hc List.not_mem_nil fun _ => rfl, ← replaceEach,
    hbehind, flatMap_enclosing, flatMap_written hfront]
  simp

include h hc hps hfirst hds in
/-- A completed name that is replaced after the others is read. -/
theorem replaceEach_append_of_completesFirst :
    ∃ behind, replaceEach (ds ++ [c]) (ps.flatMap (Piece.textAt [])) =
      l.flatMap Piece.written ++ c.display ++ behind := by
  have hnodup : (c :: ds).Nodup := hds.nodup_iff.2 h.nodup.of_map
  obtain ⟨hcds, hnodup⟩ := List.nodup_cons.1 hnodup
  obtain ⟨behind, hbehind⟩ := exists_replaceEach_of_completesFirst h hc hps hfirst []
    (fun d hd => hds.mem_iff.1 (List.mem_cons_of_mem _ hd)) hnodup hcds
    (r.flatMap (Piece.textAt []))
  have hnew : c ∉ ds.reverse ++ [] := by simpa using hcds
  have hname : inner.flatMap (Piece.textAt (ds.reverse ++ [])) = c.name := by
    rw [flatMap_written (fun b hb => by simpa using hfirst.mem_of_mem_inner hps hds hb),
      hfirst.written]
  -- The completed name reads as if it had stood in the prose.
  have hreads : l.flatMap (Piece.textAt (ds.reverse ++ [])) ++ '\x7b' :: c.name ++ ['\x7d'] =
      (l ++ [Piece.value c]).flatMap (Piece.textAt (ds.reverse ++ [])) := by
    rw [List.flatMap_append, List.flatMap_singleton, Piece.textAt, if_neg hnew, inBraces]
    simp
  have hfront : ∀ b, .value b ∈ l ++ [.value c] → b ∈ c :: (ds.reverse ++ []) := fun b hb => by
    rcases List.mem_append.1 hb with hb | hb
    · simpa using hfirst.mem_of_mem_front hps hds hb
    · cases List.mem_singleton.1 hb
      exact List.mem_cons_self
  refine ⟨Text.replaceAll (inBraces c.name) c.display behind, ?_⟩
  rw [replaceEach_append, hfirst.flatMap_source, hbehind, flatMap_enclosing, hname,
    List.append_assoc, List.singleton_append, replaceEach, List.foldl_cons, List.foldl_nil,
    replaceAll_close (h.not_mem_name hc).2, hreads,
    replaceAll_front_of_completesFirst h hc hps hfirst hnew, flatMap_written hfront,
    List.flatMap_append, List.flatMap_singleton]
  rfl

include h hc hps hfirst hds in
/-- A completed name is replaced or stays in braces as it comes last or first. -/
theorem parts_of_completesFirst (hne : c.display ≠ []) :
    Text.Parts (replaceEach (c :: ds) (ps.flatMap (Piece.textAt [])))
      (replaceEach (ds ++ [c]) (ps.flatMap (Piece.textAt []))) := by
  obtain ⟨behind, hbefore⟩ := replaceEach_cons_of_completesFirst h hc hps hfirst hds
  obtain ⟨behind', hafter⟩ := replaceEach_append_of_completesFirst h hc hps hfirst hds
  obtain ⟨x, u, hdisplay⟩ := List.exists_cons_of_ne_nil hne
  have hx : '\x7b' ≠ x := by
    rintro rfl
    exact (h.not_mem_display hc).1 (hdisplay ▸ List.mem_cons_self)
  refine ⟨l.flatMap Piece.written, '\x7b', x, behind, u ++ behind', hx, hbefore, ?_⟩
  rw [hafter, hdisplay]
  simp

end Orders

end First

end Bindings

end RadixCalc
