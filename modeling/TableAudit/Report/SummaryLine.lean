import TableAudit.Fault
import TableAudit.Number.Notation
import TableAudit.Report.Basic
import TableAudit.Text.Search
import TableAudit.Value.Basic

/-!
# The summary line

One line sums up a pass. Its numbers have no fraction where they are whole, no exponent where they
are tiny, and three decimal places otherwise.
-/

namespace TableAudit

open TableAudit.Number (Binary64)

namespace SummaryLine

/-- Digits without zeros at the end and without a point there. -/
def bare (ds : List Char) : List Char :=
  let cs := Binary64.withoutZeros ds
  if cs.getLast? = some '.' then cs.dropLast else cs

/-- Six decimal places of a tiny number, without zeros at the end. -/
def tinyText (negative : Bool) (m : Nat) (e : Int) : String :=
  String.ofList (bare ((if negative then ['-'] else []) ++ Binary64.fixed false 6 m e))

/-- Magnitudes below one hundredth are tiny. -/
def tinyBound : Binary64 :=
  Binary64.ofDecimal false 1 (-2)

/-- A number in the summary line. -/
def numberText : Number → Except Fault String
  | .int n => .ok (toString n)
  | .float .nan => .error .undefinedNumber
  | .float (.infinity _) => .error .outOfRange
  | .float (.finite s m e) =>
    let x := Binary64.finite s m e
    if x.isIntegral then .ok (((x.truncate?).map toString).getD "")
    else if x.abs.compare? tinyBound = some .lt then .ok (tinyText s m e)
    else .ok (x.roundPlaces 3).text

/-- The summary line of a report after a time in seconds at a rate per second. -/
def render (r : Report) (elapsed throughput : Number) : Except Fault String := do
  let elapsed ← numberText elapsed
  let throughput ← numberText throughput
  .ok ("SUMMARY columns=" ++ toString r.columnsValidated ++ "/" ++ toString r.columnsTotal ++
    " skipped=" ++ toString r.columnsSkipped ++ " rows=" ++ toString r.totalRows ++
    " violations=" ++ toString r.violations.length ++ " issues=" ++ toString r.issues.length ++
    " elapsed_sec=" ++ elapsed ++ " throughput_rps=" ++ throughput)

end SummaryLine

end TableAudit
