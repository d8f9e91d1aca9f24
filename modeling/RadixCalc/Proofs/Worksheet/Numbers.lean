import RadixCalc.Proofs.Decimal.Numbers
import RadixCalc.Proofs.Worksheet.Filling

/-!
# Worksheets over texts of numbers

The values of a worksheet may be given as texts. Each has to be a number, and the first that is none
is named in the failure, with its variable. Nothing else fails once the separators are valid.

* `Bindings.FirstOffence` says which pair is the first that is no number.
* `Bindings.ofTexts_eq_error_iff` is the failure of the bindings.
* `Worksheet.ofTexts_numbers` is the result for worksheets, with the values that are read.
-/

namespace RadixCalc

namespace Bindings

variable {locale : Locale}

/-- The name and the text are the first pair of the list whose text is no number. -/
def FirstOffence (pairs : List (Text × Text)) (name text : Text) : Prop :=
  ∃ before after, pairs = before ++ (name, text) :: after ∧ ¬IsNumeric text ∧
    ∀ pair ∈ before, IsNumeric pair.2

theorem exists_firstOffence_iff {pairs : List (Text × Text)} :
    (∃ name text, FirstOffence pairs name text) ↔ ∃ pair ∈ pairs, ¬IsNumeric pair.2 := by
  constructor
  · rintro ⟨name, text, before, after, rfl, hoffence, -⟩
    exact ⟨(name, text), by simp, hoffence⟩
  · intro h
    obtain ⟨before, ⟨name, text⟩, after, hsplit, hoffence, hbefore⟩ := Worksheet.exists_first h
    refine ⟨name, text, before, after, hsplit, hoffence, ?_⟩
    intro pair hpair
    exact not_not.1 (hbefore pair hpair)

/-! ## One binding -/

theorem ofText_eq_error_iff {name text : Text} {e : Failure} :
    ofText locale name text = .error e ↔ e = .notNumeric name text ∧ ¬IsNumeric text := by
  rw [ofText, ← Double.reads_none_iff]
  cases Double.ofText? text with
  | none => simp [eq_comm]
  | some x => simp

theorem exists_ofText_iff {name text : Text} :
    (∃ b, ofText locale name text = .ok b) ↔ IsNumeric text := by
  rw [← not_iff_not, ← Double.reads_none_iff, ofText]
  cases Double.ofText? text with
  | none => simp
  | some x => simp

/-! ## All bindings -/

theorem ofTexts_eq_map (locale : Locale) (pairs : List (Text × Text)) :
    ofTexts locale pairs =
      (pairs.mapM fun pair => ofText locale pair.1 pair.2).map ofList := by
  unfold ofTexts
  split
  · next e heq =>
    have hmap : (pairs.mapM fun pair => ofText locale pair.1 pair.2) = .error e := heq
    rw [hmap]
    rfl
  · next list heq =>
    have hmap : (pairs.mapM fun pair => ofText locale pair.1 pair.2) = .ok list := heq
    rw [hmap]
    rfl

theorem ofTexts_eq_error_iff (locale : Locale) {pairs : List (Text × Text)} {e : Failure} :
    ofTexts locale pairs = .error e ↔
      ∃ name text, FirstOffence pairs name text ∧ e = .notNumeric name text := by
  have hmap : ofTexts locale pairs = .error e ↔
      (pairs.mapM fun pair => ofText locale pair.1 pair.2) = .error e := by
    rw [ofTexts_eq_map]
    cases pairs.mapM fun pair => ofText locale pair.1 pair.2 with
    | error e' => simp [Except.map]
    | ok list => exact iff_of_false nofun nofun
  rw [hmap, Worksheet.mapM_eq_error_iff]
  constructor
  · rintro ⟨before, ⟨name, text⟩, after, hsplit, herror, hbefore⟩
    obtain ⟨he, hoffence⟩ := ofText_eq_error_iff.1 herror
    refine ⟨name, text, ⟨before, after, hsplit, hoffence, ?_⟩, he⟩
    intro pair hpair
    exact exists_ofText_iff.1 (hbefore pair hpair)
  · rintro ⟨name, text, ⟨before, after, hsplit, hoffence, hbefore⟩, he⟩
    refine ⟨before, (name, text), after, hsplit, ofText_eq_error_iff.2 ⟨he, hoffence⟩, ?_⟩
    intro pair hpair
    exact exists_ofText_iff.2 (hbefore pair hpair)

end Bindings

namespace Worksheet

open Bindings (FirstOffence)

/-- A text is read exactly when it is a number, and as its value correctly rounded. Under valid
separators the worksheet over texts fails exactly when one of them is no number, and the failure
names the first such pair. -/
theorem ofTexts_numbers {settings : Settings} {locale : Locale}
    (h : settings.locale = .ok locale) (pairs : List (Text × Text)) :
    (∀ text, Double.ofText? text = none ↔ ¬IsNumeric text) ∧
      (∀ text x, Double.ofText? text = some x ↔ ∃ negative magnitude,
        IsNumber text negative magnitude ∧ Double.IsRounded negative magnitude x) ∧
      (∀ e, ofTexts settings pairs = .error e ↔
        ∃ name text, FirstOffence pairs name text ∧ e = .notNumeric name text) ∧
      ((∃ e, ofTexts settings pairs = .error e) ↔ ∃ pair ∈ pairs, ¬IsNumeric pair.2) := by
  have herror : ∀ e, ofTexts settings pairs = .error e ↔
      ∃ name text, FirstOffence pairs name text ∧ e = .notNumeric name text := by
    intro e
    rw [← Bindings.ofTexts_eq_error_iff locale, ofTexts, h]
    simp only
    cases Bindings.ofTexts locale pairs with
    | error e' => simp
    | ok bindings => exact iff_of_false nofun nofun
  refine ⟨fun _ => Double.reads_none_iff, fun _ _ => Double.reads_number_iff, herror, ?_⟩
  rw [← Bindings.exists_firstOffence_iff]
  constructor
  · rintro ⟨e, he⟩
    obtain ⟨name, text, hoffence, -⟩ := (herror e).1 he
    exact ⟨name, text, hoffence⟩
  · rintro ⟨name, text, hoffence⟩
    exact ⟨_, (herror _).2 ⟨name, text, hoffence, rfl⟩⟩

/-- Of three texts the second and the third are no numbers, and the second is named. -/
theorem ofTexts_numbers_comma :
    Settings.standard.locale = .ok .standard ∧
      IsNumeric " -.5E+1".toList ∧ ¬IsNumeric "1,5".toList ∧ ¬IsNumeric "inf".toList ∧
      ofTexts .standard [(['a'], " -.5E+1".toList), (['b'], "1,5".toList), (['c'], "inf".toList)] =
        .error (.notNumeric ['b'] "1,5".toList) := by
  have hlocale : Settings.standard.locale = .ok .standard := rfl
  obtain ⟨hnone, hsome, herror, -⟩ := ofTexts_numbers hlocale
    [(['a'], " -.5E+1".toList), (['b'], "1,5".toList), (['c'], "inf".toList)]
  have hfirst : IsNumeric " -.5E+1".toList := by
    obtain ⟨negative, magnitude, hnumber, -⟩ :=
      (hsome " -.5E+1".toList (-(Double.ofNat 5))).1 (by decide +kernel)
    exact ⟨negative, magnitude, hnumber⟩
  have hsecond : ¬IsNumeric "1,5".toList := (hnone _).1 (by decide +kernel)
  have hthird : ¬IsNumeric "inf".toList := (hnone _).1 (by decide +kernel)
  refine ⟨hlocale, hfirst, hsecond, hthird, (herror _).2 ⟨['b'], "1,5".toList, ?_, rfl⟩⟩
  exact ⟨[_], [_], rfl, hsecond, List.forall_mem_singleton.2 hfirst⟩

end Worksheet

end RadixCalc
