import TableAudit.Number.Basic
import TableAudit.Report.Violation

/-!
# Reports

The outcome of a pass over a table: all violations, all issues, counts of columns, and a statistic
for every column.
-/

namespace TableAudit

/-- How a column ended. -/
inductive ColumnStatus
  | validated
  | noRule
  | failed
deriving DecidableEq, Repr, Inhabited

/-- The name of a status. -/
def ColumnStatus.name : ColumnStatus → String
  | validated => "validated"
  | noRule => "no_rule"
  | failed => "failed"

/-- What is known of a column after a pass. -/
structure ColumnStat where
  columnName : String
  status : ColumnStatus
  checkedRows : Nat
  violations : Nat
  totalChunks : Nat
deriving DecidableEq, Repr, Inhabited

/-- The outcome of a pass. -/
structure Report where
  violations : List Violation
  issues : List Issue
  columnsTotal : Nat
  columnsValidated : Nat
  columnsSkipped : Nat
  totalRows : Nat
  stats : List ColumnStat
deriving Repr, Inhabited

/-- What a report is shown as. -/
inductive ReportState
  | error
  | violations
  | clean
deriving DecidableEq, Repr

/-- The name of a state. -/
def ReportState.name : ReportState → String
  | error => "error"
  | violations => "violations"
  | clean => "clean"

namespace Report

/-- What a report is shown as: issues come before violations. -/
def state (r : Report) : ReportState :=
  if !r.issues.isEmpty then .error
  else if !r.violations.isEmpty then .violations
  else .clean

/-- The issue that is shown. -/
def firstIssue? (r : Report) : Option Issue :=
  r.issues.head?

end Report

/-- The outcome that a monitor shows last: nothing yet, a report, or an error. -/
structure Display where
  report : Option Report
  error : Option String
deriving Repr, Inhabited

namespace Display

/-- What is shown. -/
def status (d : Display) : String :=
  match d.error, d.report with
  | some _, _ => "error"
  | none, none => "idle"
  | none, some r => r.state.name

/-- The message that is shown: the error, or the first issue's. -/
def message? (d : Display) : Option String :=
  match d.error with
  | some e => some e
  | none => (d.report.bind Report.firstIssue?).map (·.message)

end Display

end TableAudit
