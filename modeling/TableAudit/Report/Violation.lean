import TableAudit.Json.Write

/-!
# Violations and issues

A violation is one failing cell: where it is, what it holds, and everything that is wrong with it.
A violation of uniqueness names the other rows that hold the same text. An issue is a column whose
rule cannot be used.
-/

namespace TableAudit

/-- A failing cell. -/
structure Violation where
  recordId : String
  rowNumber : Nat
  columnName : String
  cellValue : String
  problem : String
  errorTypes : List String
  timestamp : String
  conflictRows : Option (List Nat)
deriving DecidableEq, Inhabited, Repr

/-- The code of a text that is not unique in its column. -/
def uniquenessCode : String := "stringExists"

namespace Violation

/-- Whether the cell's text is not unique in its column. -/
def isUniqueness (v : Violation) : Bool :=
  v.errorTypes.contains uniquenessCode

/-- Numbers of rows as a list of values. -/
def rowsValue (rows : List Nat) : Value :=
  .list (rows.map fun n : Nat => .int n)

/-- The violation as an object. -/
def toValue (v : Violation) : Value :=
  .object [("record_id", .text v.recordId), ("row_number", .int v.rowNumber),
    ("column_name", .text v.columnName), ("cell_value", .text v.cellValue),
    ("problem_type", .text v.problem), ("error_types", .list (v.errorTypes.map .text)),
    ("timestamp", .text v.timestamp), ("conflict_rows", Value.ofOption rowsValue v.conflictRows)]

/-- The violation as one line of JSON. -/
def jsonLine (v : Violation) : String :=
  (Json.write? Json.spaced v.toValue).getD ""

end Violation

/-- Why the rule of a column cannot be used. -/
inductive IssueKind
  /-- The text that should carry the rule is no JSON. -/
  | brokenJson
  /-- The rule is wrong. -/
  | badRule
deriving DecidableEq, Repr

/-- The name of a kind of issue. -/
def IssueKind.name : IssueKind → String
  | brokenJson => "invalid_rule_json"
  | badRule => "invalid_validator_rule"

/-- A column whose rule cannot be used. -/
structure Issue where
  columnName : String
  kind : IssueKind
  message : String
deriving DecidableEq, Repr

end TableAudit
