import TableAudit.Report.Basic
import TableAudit.Report.Aggregate

/-!
# Reports as documents

A report spelled out: its violations without the times at which they were found, its issues, its
counts and, where they are asked for, the statistics of its columns.
-/

namespace TableAudit

/-- The violation as a document, without its time. -/
def Violation.document (v : Violation) : Value :=
  .object [("record_id", .text v.recordId), ("row_number", .int v.rowNumber),
    ("column_name", .text v.columnName), ("cell_value", .text v.cellValue),
    ("problem_type", .text v.problem), ("error_types", .list (v.errorTypes.map .text)),
    ("conflict_rows", .ofOption Violation.rowsValue v.conflictRows)]

/-- The summary as a document. -/
def ProblemSummary.document (s : ProblemSummary) : Value :=
  .object [("problem_type", .text s.problem), ("field_name", .text s.fieldName),
    ("row_numbers", Violation.rowsValue s.rowNumbers)]

/-- The issue as a document. -/
def Issue.document (i : Issue) : Value :=
  .object [("column_name", .text i.columnName), ("kind", .text i.kind.name),
    ("message", .text i.message)]

/-- The statistic of a column as a list of values. -/
def ColumnStat.document (s : ColumnStat) : Value :=
  .list [.text s.columnName, .text s.status.name, .int s.checkedRows, .int s.violations,
    .int s.totalChunks]

/-- What a display shows: its status and its message. -/
def Display.document (d : Display) : Value :=
  .list [.text d.status, .ofOption .text d.message?]

namespace Report

/-- The parts of a report, by their names. -/
def parts (r : Report) : List (String × Value) :=
  [("state", .text r.state.name), ("violations", .list (r.violations.map Violation.document)),
    ("issues", .list (r.issues.map Issue.document)),
    ("first_issue", .ofOption Issue.document r.firstIssue?), ("columns_total", .int r.columnsTotal),
    ("columns_validated", .int r.columnsValidated), ("columns_skipped", .int r.columnsSkipped),
    ("total_rows", .int r.totalRows)]

/-- The parts of a report with the statistics of its columns. -/
def fullParts (r : Report) : List (String × Value) :=
  ("stats", .list (r.stats.map ColumnStat.document)) :: r.parts

end Report

end TableAudit
