import TableAudit.Source.Basic
import TableAudit.Value.Basic

/-!
# Tables as documents

Columns, records, pages and rows spelled out, and the replies of a table.
-/

namespace TableAudit

/-- A time of change as a value. -/
def changeValue (t : Option Number) : Value :=
  .ofOption (·.toValue) t

/-- The column as a document. -/
def Column.document (c : Column) : Value :=
  .object [("id", .text c.id), ("name", .text c.name), ("type", .int c.type.code),
    ("description", c.description), ("properties", c.properties)]

/-- The record as a document. -/
def Record.document (r : Record) : Value :=
  .object [("record_id", .text r.id), ("fields", .map r.fields),
    ("last_modified_by", .ofOption .text r.lastModifiedBy),
    ("last_modified_time", changeValue r.lastModifiedTime)]

/-- The page as a document. -/
def Page.document (p : Page) : Value :=
  .object [("records", .list (p.records.map Record.document)), ("has_more", .bool p.hasMore),
    ("page_token", p.token)]

/-- The row as a document. -/
def Row.document (r : Row) : Value :=
  .object [("row_number", .int r.number), ("record_id", .text r.recordId),
    ("fields", .object (r.cells.map fun c => (c.1, .text c.2))),
    ("last_modified_by", .ofOption .text r.lastModifiedBy),
    ("last_modified_time", changeValue r.lastModifiedTime)]

/-- The selection as a document. -/
def Selection.document (s : Selection) : Value :=
  .object [("table_id", s.tableId), ("view_id", s.viewId)]

/-- The reply as a document. A handle has none. -/
def TableReply.document : TableReply → Value
  | fields cs => .list (cs.map Column.document)
  | page p => p.document
  | visibleIds ids => .list (ids.map .text)
  | cell v => v
  | stored b => .bool b
  | _ => .null

end TableAudit
