import NewtonKrylov.Decimal.Scientific
import NewtonKrylov.Newton.Report

/-!
# The text of reports

The numbers of a line are separated by commas: an index with at least two digits first, then real
numbers in scientific notation with six places.
-/

namespace NewtonKrylov

/-- The numbers of a line: an index and real numbers. -/
def numbersText (index : Int) (xs : List Float) : String :=
  ",".intercalate (padded 2 index :: xs.map (Decimal.scientific 6))

/-- The text of a line. -/
def ReportLine.text : ReportLine Float → String
  | .newtonHeading => "iN, |F|, |dx|, |x|"
  | .newton i r d x => numbersText i [r, d, x]
  | .krylovHeading => "iG, |r|"
  | .krylov i r => numbersText i [r]
  | .searchHeading => "iL, s, |F|"
  | .search i s r => numbersText i [s, r]

end NewtonKrylov
