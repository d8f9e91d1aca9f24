import RadixCalc.Decimal.Numeral
import RadixCalc.Locale

/-!
# Variables and their values

Bindings are an ordered dictionary from names to values. A name keeps the place where it was first
bound, and binding it again replaces its value. Beside its value a name has a display, the text that
stands for it in prose.

* `Bindings.bind` binds a name, `Bindings.value?` looks it up.
* `Bindings.ofValues` binds numbers, displayed plainly.
* `Bindings.ofTexts` binds numbers given as text, displayed as they are spelled.
-/

namespace RadixCalc

/-- A name with its value and its display. -/
structure Binding where
  name : Text
  value : Double
  display : Text
  deriving DecidableEq, Repr

/-- Bindings in the order in which their names were first bound. -/
abbrev Bindings := List Binding

namespace Bindings

/-- Binds a name: in its place if it is bound already, and otherwise at the end. -/
def bind (binding : Binding) : Bindings → Bindings
  | [] => [binding]
  | b :: bs => if b.name = binding.name then binding :: bs else b :: bind binding bs

/-- The binding of a name. -/
def find? (bindings : Bindings) (name : Text) : Option Binding :=
  List.find? (fun b => b.name = name) bindings

/-- The value of a name. -/
def value? (bindings : Bindings) (name : Text) : Option Double :=
  (bindings.find? name).map Binding.value

theorem find?_bind (b : Binding) (bindings : Bindings) (name : Text) :
    (bindings.bind b).find? name = if b.name = name then some b else bindings.find? name := by
  induction bindings with
  | nil => by_cases h : b.name = name <;> simp [bind, find?, h]
  | cons c cs ih =>
    unfold bind
    by_cases hc : c.name = b.name
    · by_cases h : b.name = name <;> simp [find?, hc, h]
    · by_cases hn : c.name = name
      · have h : b.name ≠ name := fun h => hc (hn.trans h.symm)
        simp [find?, hn, h, h.symm]
      · simpa [find?, hc, hn] using ih

/-- The names and values in order. -/
def entries (bindings : Bindings) : List (Text × Double) :=
  bindings.map fun b => (b.name, b.value)

/-- A list of bindings bound one after the other. -/
def ofList (list : List Binding) : Bindings :=
  list.foldl (fun bindings b => bindings.bind b) []

/-- The binding of a name to a number. -/
def ofValue (locale : Locale) (name : Text) (value : Double) : Binding :=
  ⟨name, value, locale.simpleText value⟩

/-- The binding of a name to a number given as text. -/
def ofText (locale : Locale) (name text : Text) : Except Failure Binding :=
  match Double.ofText? text with
  | some value => .ok ⟨name, value, locale.localize 0 text.trim⟩
  | none => .error (.notNumeric name text)

/-- The bindings of names to numbers. -/
def ofValues (locale : Locale) (pairs : List (Text × Double)) : Bindings :=
  ofList (pairs.map fun (name, value) => ofValue locale name value)

/-- The bindings of names to numbers given as text, or the failure of the first that is none. -/
def ofTexts (locale : Locale) (pairs : List (Text × Text)) : Except Failure Bindings :=
  match pairs.mapM fun (name, text) => ofText locale name text with
  | .error e => .error e
  | .ok list => .ok (ofList list)

end Bindings

end RadixCalc
