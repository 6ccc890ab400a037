import TableAudit.Cell.Normal
import TableAudit.Column.Basic

/-!
# Records and rows

A record is a row as a table delivers it, with payloads by the identifiers of columns. A row is
what checks work on: its place in the visible order, and the normal texts of its cells. There is no
row where the text of a cell cannot be written.
-/

namespace TableAudit

/-- A row as it is delivered. -/
structure Record where
  id : String
  fields : List (Value × Value)
  lastModifiedBy : Option String
  lastModifiedTime : Option Number
deriving Inhabited, Repr

/-- The payload of a column in a record, nothing where it has none. -/
def Record.payload (r : Record) (columnId : String) : Value :=
  (Value.lookup r.fields columnId).getD .null

/-- A row with normal texts. -/
structure Row where
  number : Nat
  recordId : String
  cells : List (String × String)
  lastModifiedBy : Option String
  lastModifiedTime : Option Number
deriving DecidableEq, Inhabited, Repr

namespace Row

/-- The text of a column, empty where the row has none. -/
def text (r : Row) (columnId : String) : String :=
  (r.cells.lookup columnId).getD ""

/-- Enter a text: a known column keeps its place. -/
def setCell : List (String × String) → String → String → List (String × String)
  | [], id, s => [(id, s)]
  | (k, t) :: cs, id, s => if k = id then (k, s) :: cs else (k, t) :: setCell cs id s

/-- The normal texts of a record in the given columns. -/
def cellsOf (columns : List Column) (r : Record) : Except Fault (List (String × String)) :=
  columns.foldlM (fun cs c => do
    let text ← Cell.writtenText c.type (r.payload c.id)
    .ok (setCell cs c.id text)) []

/-- The row of a record at a place, with the cells of the given columns. -/
def ofRecord (columns : List Column) (number : Nat) (r : Record) : Except Fault Row := do
  let cells ← cellsOf columns r
  .ok ⟨number, r.id, cells, r.lastModifiedBy, r.lastModifiedTime⟩

/-- The rows of records in order, numbered from 1. -/
def ofRecords (columns : List Column) (records : List Record) : Except Fault (List Row) :=
  (records.zipIdx 1).mapM fun (r, n) => ofRecord columns n r

end Row

end TableAudit
