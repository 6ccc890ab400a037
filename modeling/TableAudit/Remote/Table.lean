import TableAudit.Remote.Payload
import TableAudit.Table.Reading

/-!
# Remote tables

A table behind the remote interface answers the same questions as any other. Its columns are
asked for when their names are first needed and remembered from then on. Lists that come in pages
are asked for until a page says that none follows; `pages` bounds how many are asked for.
-/

namespace TableAudit.Remote

open TableAudit.Http

/-- Where a table is. -/
structure Location where
  baseUrl : String
  appToken : String
  tableId : String
  authorization : Option String
deriving Repr

/-- What is remembered of a table: its columns, once they were asked for. -/
abbrev Memory := Option (List Column)

/-- An exchange with a table. -/
abbrev TableExchange (α : Type) := Exchange Memory α

/-- The usual address of the interface. -/
def usualBaseUrl : String := "https://open.larksuite.com/open-apis"

namespace Location

/-- The address without slashes at its end. -/
def withoutSlashes (url : String) : String :=
  String.ofList (url.toList.reverse.dropWhile (· = '/')).reverse

/-- The address of a part of the table. -/
def url (l : Location) (parts : List String) : String :=
  withoutSlashes l.baseUrl ++ "/bitable/v1/apps/" ++ l.appToken ++ "/tables/" ++ l.tableId ++ "/" ++
    "/".intercalate parts

/-- A request for a part of the table. -/
def get (l : Location) (parts : List String) (parameters : Option (List (String × String))) :
    Request :=
  ⟨"GET", l.url parts, parameters, l.authorization, none⟩

/-- A request that changes a record. -/
def put (l : Location) (recordId : String) (body : Value) : Request :=
  ⟨"PUT", l.url ["records", recordId], none, l.authorization, some body⟩

end Location

/-- The text of a parameter. -/
def parameterText : Value → String
  | .bool b => if b then "true" else "false"
  | .null => ""
  | v => v.plain

/-- The parameters for a token: none if it is empty, one for every item of a list. -/
def tokenParameters (token : Value) : List (String × String) :=
  if token.isTruthy then
    match token with
    | .list items => items.map fun v => ("page_token", parameterText v)
    | v => [("page_token", parameterText v)]
  else []

/-- A result that may be an error, as an exchange. -/
def lift {α : Type} (e : Except SourceError α) : TableExchange α :=
  match e with
  | .ok a => pure a
  | .error e => throw e

/-- Ask for the pages of a list, from a token on. `read` reads the items of a page. -/
def pagesFrom {α : Type} (request : Value → Request) (read : List Value → Except SourceError (List α))
    (stalled : String) : Nat → Value → List α → TableExchange (List α)
  | 0, _, _ => throw .unfinished
  | pages + 1, token, found => do
    let data ← exchange (request token)
    let items ← lift (itemsOf data)
    let more ← lift (read items)
    let found := found ++ more
    if (data.get "has_more").isTruthy then
      let next := data.get "page_token"
      if !next.isTruthy || next.eqv token then Exchange.fail stalled
      else pagesFrom request read stalled pages next found
    else pure found

/-- The size of pages of columns and of visible records. -/
def listPageSize : String := "100"

/-- A request for columns. -/
def fieldsRequest (l : Location) (token : Value) : Request :=
  l.get ["fields"] (some (("page_size", listPageSize) :: tokenParameters token))

/-- The line that is logged when the columns are there. -/
def fieldsLine (l : Location) (count : Nat) : Log.Line :=
  ⟨Log.debug, "table " ++ l.tableId ++ ": " ++ toString count ++ " fields"⟩

/-- Ask for the columns, and remember them. -/
def fields (l : Location) (pages : Nat) : TableExchange (List Column) := do
  let columns ← pagesFrom (fieldsRequest l) columnsOf "field pagination stalled" pages .null []
  set (some columns : Memory)
  Exchange.log (fieldsLine l columns.length)
  pure columns

/-- The identifiers of columns by their names, asked for if they are not remembered. -/
def names (l : Location) (pages : Nat) : TableExchange Names := do
  match ← get with
  | some columns => pure (namesOf columns)
  | none => return namesOf (← fields l pages)

/-- A request for records. -/
def recordsRequest (l : Location) (size : Number) (token : Value) : Request :=
  l.get ["records"] (some ([("page_size", size.text), ("automatic_fields", "true"),
    ("user_id_type", "open_id")] ++ tokenParameters token))

/-- Ask for a page of records. -/
def records (l : Location) (pages : Nat) (size : Number) (token : Value) : TableExchange Page := do
  let data ← exchange (recordsRequest l size token)
  let known ← names l pages
  let items ← lift (itemsOf data)
  let records ← lift (recordsOf known items)
  pure ⟨records, (data.get "has_more").isTruthy, data.get "page_token"⟩

/-- A request for visible records. -/
def visibleRequest (l : Location) (viewId : String) (token : Value) : Request :=
  l.get ["records"]
    (some ([("view_id", viewId), ("page_size", listPageSize)] ++ tokenParameters token))

/-- Ask for the identifiers of the records that a view shows. -/
def visibleIds (l : Location) (pages : Nat) (viewId : String) : TableExchange (List String) :=
  pagesFrom (visibleRequest l viewId) recordIdsOf "view pagination stalled" pages .null []

/-- The name of a column. -/
def nameOf (l : Location) (pages : Nat) (columnId : String) : TableExchange String := do
  match nameOf? (← names l pages) columnId with
  | some name => pure name
  | none => Exchange.fail ("unknown column id " ++ Text.quoted columnId)

/-- Ask for the payload of a cell. -/
def cell (l : Location) (pages : Nat) (columnId recordId : String) : TableExchange Value := do
  let name ← nameOf l pages columnId
  let data ← exchange (l.get ["records", recordId] none)
  let record ← lift (attribute? data "record")
  let fields ← lift (attribute? (orElse record (.map [])) "fields")
  lift (attribute? (orElse fields (.map [])) name)

/-- Write a cell. -/
def setCell (l : Location) (pages : Nat) (columnId recordId : String) (value : Value) :
    TableExchange Bool := do
  let name ← nameOf l pages columnId
  let _ ← exchange (l.put recordId (.object [("fields", .object [(name, value)])]))
  pure true

/-- Answer a question. A view is opened without asking. -/
def answer (l : Location) (pages : Nat) : TableCall → TableExchange TableReply
  | .fields => return .fields (← fields l pages)
  | .records size token => return .page (← records l pages size token)
  | .view id => pure (.view ⟨id, true⟩)
  | .visibleIds view => return .visibleIds (← visibleIds l pages (parameterText view.id))
  | .cell columnId recordId => return .cell (← cell l pages columnId recordId)
  | .setCell columnId recordId value => return .stored (← setCell l pages columnId recordId value)

/-- Log a line, if there is one. -/
def note (l : Option Log.Line) : TableExchange Unit :=
  match l with
  | some l => Exchange.log l
  | none => pure ()

/-- Go on reading rows, with a bound on the questions. -/
def readFrom (l : Location) (pages : Nat) (q : RowQuery) : Nat → Reading → TableExchange (List Row)
  | 0, _ => throw .unfinished
  | bound + 1, r => do
    let reply ← answer l pages (r.call q)
    note (r.line? reply)
    match r.resume q reply with
    | .rows rows => pure rows
    | .failed e => throw e
    | .ask r => readFrom l pages q bound r

/-- Read the rows of a table. A view takes two questions beside those for the pages. -/
def readRows (l : Location) (pages : Nat) (q : RowQuery) : TableExchange (List Row) :=
  readFrom l pages q (pages + 2) .start

end TableAudit.Remote
