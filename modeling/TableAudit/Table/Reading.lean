import TableAudit.Log.Logger
import TableAudit.Source.Basic

/-!
# Reading rows

The rows of a table are read page by page until a page says that none follows. A page that
promises more but gives no new token would be asked for forever, so it ends the reading with an
error. With a view the rows are those of its visible records in its order; visible identifiers
without a record are skipped. A cell whose text cannot be written leaves the table without rows.
-/

namespace TableAudit

/-- Which rows are read: the columns whose cells matter, the view, and the size of pages. -/
structure RowQuery where
  columns : List Column
  viewId : Value
  pageSize : Number
deriving Repr

/-- The size of pages where nothing else is asked for. -/
def RowQuery.usualPageSize : Number := .int 100

/-- How far a reading has come. -/
inductive Reading
  /-- Some pages are there, and the page of a token is asked for. -/
  | paging (records : List Record) (token : Value) (pages : Nat)
  /-- All records are there, and the view is being opened. -/
  | opening (records : List Record)
  /-- The view is open, and its visible records are asked for. -/
  | ordering (records : List Record) (view : ViewHandle)
deriving Repr

/-- What follows a reply: another question, or the rows, or an error. -/
inductive Reading.Next
  | ask (r : Reading)
  | rows (rows : List Row)
  | failed (e : SourceError)
deriving Repr

namespace Reading

/-- Nothing is there yet. -/
def start : Reading := .paging [] .null 0

/-- The question that is open. -/
def call (q : RowQuery) : Reading → TableCall
  | paging _ token _ => .records q.pageSize token
  | opening _ => .view q.viewId
  | ordering _ view => .visibleIds view

/-- The wording for pages that lead nowhere. -/
def stalledText (pages : Nat) (token : Value) : String :=
  "pagination stalled after " ++ toString pages ++ " pages (token=" ++ token.literal ++ ")"

/-- The last record with an identifier. -/
def lastRecord? (records : List Record) (id : String) : Option Record :=
  records.reverse.find? (·.id = id)

/-- The records that are visible, in visible order. -/
def visible (records : List Record) (ids : List String) : List Record :=
  ids.filterMap (lastRecord? records)

/-- Whether a view orders the rows. -/
def hasView (q : RowQuery) : Bool :=
  match q.viewId with
  | .null => false
  | _ => true

/-- The error for pages that lead nowhere, whose wording takes the text of the token. -/
def stalled (pages : Nat) (token : Value) : SourceError :=
  if token.isWritable then .failure (stalledText pages token) else .fault .digitLimit

/-- The end of a reading with rows, if there are any. -/
def Next.ofRows : Except Fault (List Row) → Next
  | .ok shown => .rows shown
  | .error f => .failed (.fault f)

/-- What follows a page. -/
def afterPage (q : RowQuery) (records : List Record) (token : Value) (pages : Nat) (p : Page) :
    Next :=
  let records := records ++ p.records
  if p.hasMore then
    if !p.token.isTruthy || p.token.eqv token then
      .failed (stalled (pages + 1) p.token)
    else .ask (.paging records p.token (pages + 1))
  else if hasView q then .ask (.opening records)
  else .ofRows (Row.ofRecords q.columns records)

/-- What follows a reply. A reply to another question is a fault. -/
def resume (q : RowQuery) : Reading → TableReply → Next
  | _, .failed e => .failed e
  | paging records token pages, .page p => afterPage q records token pages p
  | opening records, .view handle => .ask (.ordering records handle)
  | ordering records _, .visibleIds ids =>
    .ofRows (Row.ofRecords q.columns (visible records ids))
  | _, _ => .failed (.fault .wrongKind)

/-- The line that is logged when all pages are there. -/
def fetchedLine (records pages : Nat) : Log.Line :=
  ⟨Log.debug, "fetched " ++ toString records ++ " records in " ++ toString pages ++ " pages"⟩

/-- The line that is logged when visible records are missing. -/
def missingLine (missing : Nat) : Log.Line :=
  ⟨Log.debug, toString missing ++ " visible ids had no fetched record"⟩

/-- The line that is logged at a reply, if any. -/
def line? : Reading → TableReply → Option Log.Line
  | paging records _ pages, .page p =>
    if p.hasMore then none
    else some (fetchedLine (records.length + p.records.length) (pages + 1))
  | ordering records _, .visibleIds ids =>
    let missing := ids.length - (visible records ids).length
    if missing = 0 then none else some (missingLine missing)
  | _, _ => none

end Reading

end TableAudit
