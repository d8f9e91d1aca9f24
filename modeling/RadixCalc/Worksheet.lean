import RadixCalc.Bindings
import RadixCalc.Document
import RadixCalc.Formula.Eval

/-!
# Worksheets

A worksheet is a set of variables with the separators of its reader. It computes formulas over its
variables, gives answers in a layout, and fills in texts.

* `Worksheet.calculate` is the value of a formula, which may be escaped as for a page: entities
  stand for `&`, `<` and `>`. Every variable must have a value, even where it is not needed.
* `Worksheet.answer` is that value in a layout, with a unit behind it.
* `Worksheet.fill` replaces the formulas in a text by their values, and the variables in the prose
  between them by their displays. What a formula gave is not read again. The first formula that
  fails fails the text.
-/

namespace RadixCalc

/-- Variables with the separators of a reader. -/
structure Worksheet where
  bindings : Bindings
  locale : Locale

namespace Worksheet

/-! ## Construction -/

/-- The worksheet over numbers. -/
def ofValues (settings : Settings) (pairs : List (Text × Double)) : Except Failure Worksheet :=
  match settings.locale with
  | .error e => .error e
  | .ok locale => .ok ⟨.ofValues locale pairs, locale⟩

/-- The worksheet over numbers given as text. -/
def ofTexts (settings : Settings) (pairs : List (Text × Text)) : Except Failure Worksheet :=
  match settings.locale with
  | .error e => .error e
  | .ok locale =>
    match Bindings.ofTexts locale pairs with
    | .error e => .error e
    | .ok bindings => .ok ⟨bindings, locale⟩

/-! ## Calculation -/

/-- The entities of an escaped text, in the order in which they are replaced; so an entity whose
ampersand is itself escaped is replaced too. -/
def entities : List (Text × Text) :=
  [("&amp;".toList, ['&']), ("&lt;".toList, ['<']), ("&gt;".toList, ['>'])]

/-- The text with its entities replaced. -/
def unescape (text : Text) : Text :=
  entities.foldl (fun text (entity, plain) => Text.replaceAll entity plain text) text

/-- The value of a formula. -/
def calculate (w : Worksheet) (expression : Text) : Except Failure Double :=
  match Formula.ofText (unescape expression).trim with
  | .error e => .error e
  | .ok e =>
    match e.variableNames.find? fun name => (w.bindings.value? name).isNone with
    | some name => .error (.unboundVariable name)
    | none => e.eval w.bindings.value?

/-- The value of a formula in a layout, with a unit behind it. -/
def answer (w : Worksheet) (expression : Text) (layout : Layout) (unit : Text) :
    Except Failure Text :=
  match w.calculate expression with
  | .error e => .error e
  | .ok v =>
    match w.locale.display layout v with
    | .error e => .error e
    | .ok text => .ok (if unit.isEmpty then text else text ++ ' ' :: unit)

/-! ## Texts -/

/-- Prose with every variable in braces replaced by its display, one variable after the other. -/
def fillProse (w : Worksheet) (text : Text) : Text :=
  w.bindings.foldl (fun text b => Text.replaceAll (inBraces b.name) b.display text) text

/-- A number as a directive asks, or plainly where there is none or it cannot be met. -/
def showBy (w : Worksheet) (directive : Text) (v : Double) : Text :=
  if directive.isEmpty then w.locale.simpleText v
  else (w.locale.displayBy? directive v).getD (w.locale.simpleText v)

/-- A passage filled in. -/
def fillPassage (w : Worksheet) : Passage → Except Failure Text
  | .prose text => .ok (w.fillProse text)
  | .formula directive expression =>
    match w.calculate expression with
    | .error e => .error e
    | .ok v => .ok (w.showBy directive v)

/-- A text filled in. -/
def fill (w : Worksheet) (text : Text) : Except Failure Text :=
  match (Passage.ofText text).mapM w.fillPassage with
  | .error e => .error e
  | .ok texts => .ok texts.flatten

end Worksheet

end RadixCalc
