import Mathlib
import RadixCalc.Worksheet

/-!
# Substitution in prose

Prose is a list of pieces: characters, and bound names in braces. Substitution puts the display of
its number in place of every such name at once. Replacing one name at a time does the same to the
pieces as long as no text between two braces comes to read as that name.

* `Bindings.pieces` takes prose apart, and `Bindings.substitute` is substitution.
* `Bindings.Scanned` is what holds of the pieces of prose: every bound name in braces is a piece of
  its own.
* `Bindings.replaceAll_flatMap` is the replacement of one name.
* `Bindings.replaceAll_close` says that a replacement does not reach across a closing brace.
-/

namespace RadixCalc

open Passage (isPlain)

theorem Passage.not_mem_of_isPlain {text : Text} (h : ∀ c ∈ text, isPlain c = true) :
    '\x7b' ∉ text ∧ '\x7d' ∉ text :=
  ⟨fun hmem => absurd (h _ hmem) (by decide), fun hmem => absurd (h _ hmem) (by decide)⟩

/-! ## Pieces of prose -/

/-- A piece of prose: a character that stands for itself, or a bound name in braces. -/
inductive Piece where
  | char (c : Char)
  | value (b : Binding)
  deriving DecidableEq, Repr

namespace Piece

/-- The text of a piece once the bindings in `done` have been replaced by their displays. -/
def textAt (done : List Binding) : Piece → Text
  | char c => [c]
  | value b => if b ∈ done then b.display else inBraces b.name

/-- The text of a piece once every binding has been replaced. -/
def written : Piece → Text
  | char c => [c]
  | value b => b.display

end Piece

namespace Bindings

/-- The binding of the name in front of the next brace, if that brace closes and the name is bound,
and what follows. -/
def readValue? (bs : Bindings) (text : Text) : Option (Binding × Text) :=
  match text.dropWhile isPlain with
  | '\x7d' :: rest => (bs.find? (text.takeWhile isPlain)).map fun b => (b, rest)
  | _ => none

theorem readValue?_eq_some {bs : Bindings} {text rest : Text} {b : Binding}
    (h : bs.readValue? text = some (b, rest)) :
    b ∈ bs ∧ text = b.name ++ '\x7d' :: rest := by
  have hsplit := List.takeWhile_append_dropWhile (p := isPlain) (l := text)
  unfold readValue? at h
  split at h
  · next behind hdrop =>
    obtain ⟨b', hfind, heq⟩ := Option.map_eq_some_iff.1 h
    cases heq
    have hname : b.name = text.takeWhile isPlain := by
      simpa using List.find?_some (hfind : List.find? _ bs = some b)
    rw [hdrop] at hsplit
    exact ⟨List.mem_of_find?_eq_some (hfind : List.find? _ bs = some b), hname ▸ hsplit.symm⟩
  · cases h

theorem length_of_readValue? {bs : Bindings} {text rest : Text} {b : Binding}
    (h : bs.readValue? text = some (b, rest)) : rest.length < text.length := by
  rw [(readValue?_eq_some h).2, List.length_append, List.length_cons]
  omega

/-- The pieces of a prose. -/
def pieces (bs : Bindings) (text : Text) : List Piece :=
  match text with
  | [] => []
  | c :: cs =>
    if c = '\x7b' then
      match h : bs.readValue? cs with
      | some (b, rest) =>
        have : rest.length < cs.length := length_of_readValue? h
        .value b :: bs.pieces rest
      | none => .char c :: bs.pieces cs
    else .char c :: bs.pieces cs
  termination_by text.length

/-- Prose with every bound name in braces replaced at once. -/
def substitute (bs : Bindings) (text : Text) : Text :=
  (bs.pieces text).flatMap Piece.written

/-- Names and displays that can be told apart in prose: no name is bound twice, and neither names
nor displays have braces. -/
structure Apart (bs : Bindings) : Prop where
  nodup : (bs.map Binding.name).Nodup
  name : ∀ b ∈ bs, ∀ c ∈ b.name, isPlain c = true
  display : ∀ b ∈ bs, ∀ c ∈ b.display, isPlain c = true

/-- The pieces are those of prose over these bindings: its values are bound, and no bound name
stands in braces among its characters. -/
structure Scanned (bs : Bindings) (ps : List Piece) : Prop where
  mem : ∀ b, .value b ∈ ps → b ∈ bs
  tight : ∀ b ∈ bs, ∀ l r,
    ps ≠ l ++ .char '\x7b' :: (b.name.map .char ++ .char '\x7d' :: r)

variable {bs : Bindings}

/-- The source of a prose is its pieces before anything has been replaced. -/
theorem flatMap_pieces (bs : Bindings) (text : Text) :
    (bs.pieces text).flatMap (Piece.textAt []) = text := by
  fun_induction pieces bs text with
  | case1 => rfl
  | case2 cs b rest h hlt ih =>
    rw [List.flatMap_cons, ih, (readValue?_eq_some h).2]
    simp [Piece.textAt, inBraces]
  | case3 cs h ih => rw [List.flatMap_cons, ih]; rfl
  | case4 c cs hc ih => rw [List.flatMap_cons, ih]; rfl

theorem flatMap_char (done : List Binding) (text : Text) :
    (text.map Piece.char).flatMap (Piece.textAt done) = text := by
  induction text with
  | nil => rfl
  | cons c cs ih => rw [List.map_cons, List.flatMap_cons, ih]; rfl

theorem eq_map_char {ps : List Piece} (h : ∀ b, .value b ∉ ps) (done : List Binding) :
    ps = (ps.flatMap (Piece.textAt done)).map .char := by
  induction ps with
  | nil => rfl
  | cons p ps ih =>
    cases p with
    | char c =>
      exact congrArg (Piece.char c :: ·) (ih fun b hb => h b (List.mem_cons_of_mem _ hb))
    | value b => exact absurd List.mem_cons_self (h b)

theorem readValue?_append {name : Text} (hname : ∀ c ∈ name, isPlain c = true) (rest : Text) :
    bs.readValue? (name ++ '\x7d' :: rest) = (bs.find? name).map fun b => (b, rest) := by
  have htake : (name ++ '\x7d' :: rest).takeWhile isPlain = name := by
    rw [List.takeWhile_append_of_pos hname]
    simp [isPlain]
  have hdrop : (name ++ '\x7d' :: rest).dropWhile isPlain = '\x7d' :: rest := by
    rw [List.dropWhile_append_of_pos hname]
    simp [isPlain]
  unfold readValue?
  rw [htake, hdrop]
  rfl

theorem Scanned.cons_value {ps : List Piece} {b : Binding} (hb : b ∈ bs) (h : bs.Scanned ps) :
    bs.Scanned (.value b :: ps) := by
  constructor
  · intro b' hb'
    rcases List.mem_cons.1 hb' with heq | hb'
    · cases heq
      exact hb
    · exact h.mem b' hb'
  · intro b' hb' l r heq
    cases l with
    | nil => cases heq
    | cons p l => exact h.tight b' hb' l r (List.cons.inj heq).2

theorem Scanned.cons_char {ps : List Piece} {c : Char} (h : bs.Scanned ps)
    (hc : c = '\x7b' → ∀ b ∈ bs, ∀ r, ps ≠ b.name.map .char ++ .char '\x7d' :: r) :
    bs.Scanned (.char c :: ps) := by
  constructor
  · exact fun b hb => h.mem b ((List.mem_cons.1 hb).resolve_left nofun)
  · intro b hb l r heq
    cases l with
    | nil =>
      obtain ⟨hopen, hps⟩ := List.cons.inj heq
      exact hc (Piece.char.inj hopen) b hb r hps
    | cons p l => exact h.tight b hb l r (List.cons.inj heq).2

theorem scanned_pieces (h : bs.Apart) (text : Text) : bs.Scanned (bs.pieces text) := by
  fun_induction pieces bs text with
  | case1 => exact ⟨nofun, fun b _ l r heq => by simp at heq⟩
  | case2 cs b rest hread _ ih => exact ih.cons_value (readValue?_eq_some hread).1
  | case3 cs hnone ih =>
    refine ih.cons_char fun _ b hb r heq => ?_
    have hcs : cs = b.name ++ '\x7d' :: r.flatMap (Piece.textAt []) := by
      rw [← bs.flatMap_pieces cs, heq, List.flatMap_append, flatMap_char]
      rfl
    rw [hcs, readValue?_append (h.name b hb)] at hnone
    have hfind : List.find? _ bs = none := Option.map_eq_none_iff.1 hnone
    simpa using List.find?_eq_none.1 hfind b hb
  | case4 c cs hc ih => exact ih.cons_char fun hopen => absurd hopen hc

/-! ## What braces enclose -/

theorem inBraces_append (name rest : Text) :
    inBraces name ++ rest = '\x7b' :: (name ++ '\x7d' :: rest) := by
  simp [inBraces]

/-- What does not contain a member stands in front of its first place. -/
theorem exists_eq_append_of_not_mem {α : Type} {a : α} {x y u v : List α} (hx : a ∉ x)
    (h : x ++ u = y ++ a :: v) : ∃ back, y = x ++ back ∧ u = back ++ a :: v := by
  rcases List.append_eq_append_iff.1 h with ⟨back, hy, hu⟩ | ⟨front, rfl, hv⟩
  · exact ⟨back, hy, hu⟩
  · cases front with
    | nil => exact ⟨[], by simp, hv.symm⟩
    | cons c front =>
      cases (List.cons.inj hv).1
      simp at hx

/-- A list has one part in front of the first place of a member. -/
theorem eq_of_append_cons {α : Type} {a : α} {x y u v : List α} (hx : a ∉ x) (hy : a ∉ y)
    (h : x ++ a :: u = y ++ a :: v) : x = y := by
  obtain ⟨back, rfl, hu⟩ := exists_eq_append_of_not_mem hx h
  cases back with
  | nil => rw [List.append_nil]
  | cons c back =>
    cases (List.cons.inj hu).1
    simp at hy

/-- Pieces, a brace, pieces, the closing brace, and pieces. -/
def enclosing (l inner r : List Piece) : List Piece :=
  l ++ .char '\x7b' :: (inner ++ .char '\x7d' :: r)

theorem Apart.not_mem_display (h : bs.Apart) {b : Binding} (hb : b ∈ bs) :
    '\x7b' ∉ b.display ∧ '\x7d' ∉ b.display :=
  Passage.not_mem_of_isPlain (h.display b hb)

theorem Apart.not_mem_name (h : bs.Apart) {b : Binding} (hb : b ∈ bs) :
    '\x7b' ∉ b.name ∧ '\x7d' ∉ b.name :=
  Passage.not_mem_of_isPlain (h.name b hb)

/-- A name in front of a closing brace is the text of some first pieces. -/
theorem exists_eq_append_of_flatMap (h : bs.Apart) {done : List Binding} {ps : List Piece}
    (hmem : ∀ b, .value b ∈ ps → b ∈ bs) {name rest : Text} (hopen : '\x7b' ∉ name)
    (htext : ps.flatMap (Piece.textAt done) = name ++ '\x7d' :: rest) :
    ∃ inner r, ps = inner ++ .char '\x7d' :: r ∧ inner.flatMap (Piece.textAt done) = name := by
  induction ps generalizing name with
  | nil => simp at htext
  | cons p ps ih =>
    have ih {name : Text} := @ih (fun b hb => hmem b (List.mem_cons_of_mem _ hb)) name
    cases p with
    | char c =>
      cases name with
      | nil =>
        cases (List.cons.inj htext).1
        exact ⟨[], ps, rfl, rfl⟩
      | cons d name =>
        obtain ⟨rfl, hps⟩ := List.cons.inj htext
        obtain ⟨inner, r, rfl, rfl⟩ := ih (fun hmem => hopen (List.mem_cons_of_mem _ hmem)) hps
        exact ⟨.char c :: inner, r, rfl, rfl⟩
    | value b =>
      rw [List.flatMap_cons, Piece.textAt] at htext
      split at htext
      · next hdone =>
        obtain ⟨back, rfl, hps⟩ :=
          exists_eq_append_of_not_mem (h.not_mem_display (hmem b List.mem_cons_self)).2 htext
        obtain ⟨inner, r, rfl, rfl⟩ := ih (fun hmem => hopen (List.mem_append_right _ hmem)) hps
        refine ⟨.value b :: inner, r, rfl, ?_⟩
        rw [List.flatMap_cons, Piece.textAt, if_pos hdone]
      · cases name with
        | nil => cases (List.cons.inj htext).1
        | cons d name =>
          cases (List.cons.inj htext).1
          exact absurd List.mem_cons_self hopen

/-! ## Replacing one name -/

/-- Characters that open no brace are passed over. -/
theorem replaceAll_of_not_open {name text : Text} (h : '\x7b' ∉ text) (written rest : Text) :
    Text.replaceAll (inBraces name) written (text ++ rest) =
      text ++ Text.replaceAll (inBraces name) written rest :=
  Text.replaceAll_of_not_mem h _ written rest

theorem replaceAll_inBraces (name written rest : Text) :
    Text.replaceAll (inBraces name) written (inBraces name ++ rest) =
      written ++ Text.replaceAll (inBraces name) written rest :=
  Text.replaceAll_append (List.cons_ne_nil _ _) written rest

/-- Another name in braces is passed over. -/
theorem replaceAll_other {name other : Text} (hname : '\x7d' ∉ name)
    (hother : '\x7b' ∉ other ∧ '\x7d' ∉ other) (hne : name ≠ other) (written rest : Text) :
    Text.replaceAll (inBraces name) written (inBraces other ++ rest) =
      inBraces other ++ Text.replaceAll (inBraces name) written rest := by
  have hfront : ¬inBraces name <+: '\x7b' :: (other ++ '\x7d' :: rest) := by
    rintro ⟨behind, hfront⟩
    rw [inBraces_append] at hfront
    exact hne (eq_of_append_cons hname hother.2 (List.cons.inj hfront).2)
  have hopen : '\x7b' ∉ other ++ ['\x7d'] := by simp [hother.1]
  rw [inBraces_append, Text.replaceAll_cons written hfront, inBraces_append,
    List.append_cons other, replaceAll_of_not_open hopen, ← List.append_cons]

/-- A replacement of a name in braces ends where another brace closes. -/
theorem replaceAll_close {name : Text} (hname : '\x7d' ∉ name) (written x y : Text) :
    Text.replaceAll (inBraces name) written (x ++ '\x7d' :: y) =
      Text.replaceAll (inBraces name) written (x ++ ['\x7d']) ++
        Text.replaceAll (inBraces name) written y := by
  induction hlength : x.length using Nat.strong_induction_on generalizing x with
  | h n ih =>
    by_cases hfront : inBraces name <+: x ++ '\x7d' :: y
    · obtain ⟨rest, hrest⟩ := hfront
      have hopen : '\x7d' ∉ '\x7b' :: name := by simp [hname]
      rw [inBraces_append, ← List.cons_append] at hrest
      obtain ⟨back, rfl, hback⟩ := exists_eq_append_of_not_mem hopen hrest
      cases back with
      | nil =>
        have hshape : ∀ z : Text, ('\x7b' :: name) ++ [] ++ '\x7d' :: z = inBraces name ++ z := by
          simp [inBraces]
        rw [hshape, hshape, replaceAll_inBraces, replaceAll_inBraces, Text.replaceAll,
          List.append_nil]
      | cons c back =>
        cases (List.cons.inj hback).1
        have hshape : ∀ z : Text, ('\x7b' :: name) ++ '\x7d' :: back ++ z =
            inBraces name ++ (back ++ z) := by
          simp [inBraces]
        have hlt : back.length < n := by
          rw [← hlength]
          simp only [List.length_append, List.length_cons]
          omega
        rw [hshape, hshape, replaceAll_inBraces, replaceAll_inBraces, ih _ hlt back rfl,
          List.append_assoc]
    · have hfront' : ¬inBraces name <+: x ++ ['\x7d'] := fun hshort =>
        hfront (hshort.trans ⟨y, by simp⟩)
      cases x with
      | nil =>
        rw [List.nil_append, Text.replaceAll_cons written hfront, List.nil_append,
          Text.replaceAll_cons written hfront', Text.replaceAll]
        rfl
      | cons c x =>
        have hlt : x.length < n := by
          rw [← hlength]
          exact Nat.lt_succ_self _
        rw [List.cons_append] at hfront hfront'
        rw [List.cons_append, Text.replaceAll_cons written hfront, List.cons_append,
          Text.replaceAll_cons written hfront', List.cons_append, ih _ hlt x rfl]

theorem Apart.eq_of_name (h : bs.Apart) {b c : Binding} (hb : b ∈ bs) (hc : c ∈ bs)
    (hname : b.name = c.name) : b = c :=
  List.inj_on_of_nodup_map h.nodup hb hc hname

/-- Where no name is bound twice a binding is found by its name. -/
theorem find?_eq_some_iff_of_nodup (h : (bs.map Binding.name).Nodup) {name : Text} {b : Binding} :
    bs.find? name = some b ↔ b ∈ bs ∧ b.name = name := by
  constructor
  · intro hfind
    exact ⟨List.mem_of_find?_eq_some hfind, by simpa using List.find?_some hfind⟩
  · rintro ⟨hb, rfl⟩
    cases hfind : bs.find? b.name with
    | none => simpa using List.find?_eq_none.1 hfind b hb
    | some c =>
      have hname : c.name = b.name := by simpa using List.find?_some hfind
      rw [List.inj_on_of_nodup_map h (List.mem_of_find?_eq_some hfind) hb hname]

/-- A name is replaced among the pieces where it is the name of a value, if the text between two
braces does not read as it. -/
theorem replaceAll_flatMap (h : bs.Apart) {c : Binding} (hc : c ∈ bs) {done : List Binding}
    {ps : List Piece} (hmem : ∀ b, .value b ∈ ps → b ∈ bs)
    (hread : ∀ l inner r, ps = enclosing l inner r →
      inner.flatMap (Piece.textAt done) ≠ c.name) :
    Text.replaceAll (inBraces c.name) c.display (ps.flatMap (Piece.textAt done)) =
      ps.flatMap (Piece.textAt (c :: done)) := by
  induction ps with
  | nil => rw [List.flatMap_nil, Text.replaceAll, List.flatMap_nil]
  | cons p ps ih =>
    have ih := ih (fun b hb => hmem b (List.mem_cons_of_mem _ hb))
      (fun l inner r heq => hread (p :: l) inner r (congrArg (p :: ·) heq))
    rw [List.flatMap_cons, List.flatMap_cons, ← ih]
    cases p with
    | char d =>
      refine Text.replaceAll_cons _ ?_
      rintro ⟨rest, hfront⟩
      rw [inBraces_append] at hfront
      obtain ⟨hopen, hname⟩ := List.cons.inj hfront
      obtain ⟨inner, r, rfl, hinner⟩ := exists_eq_append_of_flatMap h
        (fun b hb => hmem b (List.mem_cons_of_mem _ hb)) (h.not_mem_name hc).1 hname.symm
      exact hread [] inner r (by rw [← hopen]; rfl) hinner
    | value b =>
      have hb := hmem b List.mem_cons_self
      by_cases hdone : b ∈ done
      · rw [Piece.textAt, Piece.textAt, if_pos hdone, if_pos (List.mem_cons_of_mem c hdone)]
        exact replaceAll_of_not_open (h.not_mem_display hb).1 _ _
      · rw [Piece.textAt, if_neg hdone, Piece.textAt]
        by_cases hbc : b = c
        · rw [if_pos (hbc ▸ List.mem_cons_self), hbc]
          exact replaceAll_inBraces _ _ _
        · have hnew : b ∉ c :: done := by simp [hbc, hdone]
          rw [if_neg hnew]
          exact replaceAll_other (h.not_mem_name hc).2 (h.not_mem_name hb)
            (fun hname => hbc (h.eq_of_name hc hb hname).symm) _ _

end Bindings

end RadixCalc
