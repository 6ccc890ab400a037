import TableAudit.Check.Basic
import TableAudit.Report.Violation

/-!
# From failures to violations

Checks report failures cell by cell. All failures of one cell become one violation, whose problem
is every message once, in order of first mention. The rows that hold a text are looked up in an
index of the column. For notices violations are summed up by problem and within a problem by column,
both in order of first occurrence: a summary lists the rows of its violations in ascending order,
each once, and with them the rows that a violation of uniqueness conflicts with.
-/

namespace TableAudit

/-- What is wrong with one cell. -/
structure Failure where
  rowNumber : Nat
  recordId : String
  cellValue : String
  errors : List CheckError
deriving Inhabited, Repr

/-- The rows of a column by the trimmed texts of their cells, in order of first occurrence. -/
abbrev ValueIndex := List (String × List Nat)

/-- The failures of a column, with the index of its texts. -/
structure ColumnFailures where
  columnName : String
  index : ValueIndex
  failures : List Failure
deriving Inhabited, Repr

/-- Enter a value for a key: a known key keeps its place and takes the value last. -/
def groupInsert {κ α : Type} [BEq κ] : List (κ × List α) → κ → α → List (κ × List α)
  | [], k, a => [(k, [a])]
  | (k', as) :: gs, k, a => if k' == k then (k', as ++ [a]) :: gs else (k', as) :: groupInsert gs k a

/-- Group values by a key, in order of first occurrence. -/
def groupBy {κ α : Type} [BEq κ] (key : α → κ) (as : List α) : List (κ × List α) :=
  as.foldl (fun gs a => groupInsert gs (key a) a) []

namespace ValueIndex

/-- The rows, counted from 1, of every trimmed text that is not empty. -/
def ofTexts (values : List String) : ValueIndex :=
  let keyed := (values.zipIdx 1).map fun (v, n) => (Text.trim v, n)
  (groupBy (·.1) (keyed.filter (·.1 ≠ ""))).map fun g => (g.1, g.2.map (·.2))

/-- The rows that hold a trimmed text. -/
def rows (index : ValueIndex) (key : String) : List Nat :=
  (index.lookup key).getD []

end ValueIndex

/-- Every item once, in order of first occurrence. -/
def firstOccurrences : List String → List String
  | [] => []
  | s :: ss => s :: (firstOccurrences ss).filter (· ≠ s)

/-- The other rows that hold a cell's text, if uniqueness is among its problems and the text is
not blank. -/
def conflictRows? (index : ValueIndex) (codes : List String) (rowNumber : Nat) (cell : String) :
    Option (List Nat) :=
  let key := Text.trim cell
  if codes.contains uniquenessCode && key ≠ "" then
    some ((index.rows key).filter (· ≠ rowNumber))
  else none

/-- The violation of a cell from all its failures. -/
def Violation.ofFailures (c : ColumnFailures) (timestamp : String) (rowNumber : Nat)
    (failures : List Failure) : Violation :=
  let first := failures.headD ⟨rowNumber, "", "", []⟩
  let errors := failures.flatMap (·.errors)
  let codes := firstOccurrences (errors.map (·.code))
  let problem := Text.joinWith ", " (firstOccurrences (errors.map (·.message)))
  ⟨first.recordId, rowNumber, c.columnName, first.cellValue,
    if problem = "" then "unknown" else problem, codes, timestamp,
    conflictRows? c.index codes rowNumber first.cellValue⟩

/-- The violations of a column, one for each failing row. -/
def ColumnFailures.violations (timestamp : String) (c : ColumnFailures) : List Violation :=
  (groupBy (·.rowNumber) c.failures).map fun g => Violation.ofFailures c timestamp g.1 g.2

/-- The violations of columns in turn. -/
def aggregate (timestamp : String) (columns : List ColumnFailures) : List Violation :=
  columns.flatMap (·.violations timestamp)

/-! ### Summaries -/

/-- The rows of a column that share a problem. -/
structure ProblemSummary where
  problem : String
  fieldName : String
  rowNumbers : List Nat
deriving DecidableEq, Repr

namespace ProblemSummary

/-- Insert a number into an ascending list, unless it is there. -/
def insertRow (n : Nat) : List Nat → List Nat
  | [] => [n]
  | m :: ms => if n < m then n :: m :: ms else if n = m then m :: ms else m :: insertRow n ms

/-- Numbers in ascending order, each once. -/
def ascending (rows : List Nat) : List Nat :=
  rows.foldr insertRow []

/-- The rows that a violation concerns. -/
def rowsOf (v : Violation) : List Nat :=
  v.rowNumber :: if v.isUniqueness then v.conflictRows.getD [] else []

/-- Sum up violations. -/
def ofViolations (vs : List Violation) : List ProblemSummary :=
  (groupBy (·.problem) vs).flatMap fun p =>
    (groupBy (·.columnName) p.2).map fun c => ⟨p.1, c.1, ascending (c.2.flatMap rowsOf)⟩

/-- The summary as a line of a notice. -/
def line (s : ProblemSummary) : String :=
  s.problem ++ ": \"" ++ s.fieldName ++ "\" [" ++
    Text.joinWith "," (s.rowNumbers.map toString) ++ " rows]"

end ProblemSummary

end TableAudit
