import RadixCalc.Json.Codec
import RadixCalc.Proofs.Answer.BitRadices
import RadixCalc.Proofs.Answer.FixedField
import RadixCalc.Proofs.Answer.Scanning
import RadixCalc.Proofs.Answer.Unit
import RadixCalc.Proofs.Answer.WholeNumbers
import RadixCalc.Proofs.Decimal.Restored
import RadixCalc.Proofs.Formula.Bounded
import RadixCalc.Proofs.Formula.Canonical
import RadixCalc.Proofs.Formula.Capitals
import RadixCalc.Proofs.Formula.Display
import RadixCalc.Proofs.Formula.Inlining
import RadixCalc.Proofs.Formula.Innermost
import RadixCalc.Proofs.Layout.Grouping
import RadixCalc.Proofs.Layout.Masking
import RadixCalc.Proofs.Worksheet.BindingOrder
import RadixCalc.Proofs.Worksheet.Calculation
import RadixCalc.Proofs.Worksheet.Escaping
import RadixCalc.Proofs.Worksheet.Numbers
import RadixCalc.Proofs.Worksheet.BindingMap
import RadixCalc.Proofs.Worksheet.Spans
import RadixCalc.Proofs.Formula.DigitConversions
import RadixCalc.Proofs.Formula.Extremes
import RadixCalc.Proofs.Formula.DecimalPlaces
import RadixCalc.Proofs.Formula.Dependence
import RadixCalc.Proofs.Formula.Progress
import RadixCalc.Proofs.Formula.Shifts
