import TableAudit.Remote.Exchange

/-!
# Payloads of the remote interface

Columns and records as the remote interface describes them. It keys the cells of a record by the
names of columns; here they are keyed by identifiers. A key that is no column's name is kept.
-/

namespace TableAudit.Remote

/-- The text of an attribute, the empty text where it is missing. -/
def idText (item : Value) (key : String) : String :=
  match item.get? key with
  | none => ""
  | some v => v.plain

/-- The column that an item describes, which must be a mapping. -/
def columnOf (item : Value) : Except SourceError Column :=
  if item.isMap then
    match ColumnType.ofCode (item.get "type") with
    | .error f => .error (.fault f)
    | .ok t =>
      .ok ⟨idText item "field_id", idText item "field_name", t, item.get "description",
        orElse (item.get "property") (.map [])⟩
  else .error (.fault .noAttribute)

/-- The columns that items describe. -/
def columnsOf : List Value → Except SourceError (List Column)
  | [] => .ok []
  | item :: items => do
    let c ← columnOf item
    let cs ← columnsOf items
    .ok (c :: cs)

/-- The identifiers of columns by their names. Of columns of one name the last one counts. -/
abbrev Names := List (String × String)

/-- Enter a name: a known name keeps its place. -/
def enterName : Names → String → String → Names
  | [], name, id => [(name, id)]
  | (n, i) :: rest, name, id =>
    if n = name then (n, id) :: rest else (n, i) :: enterName rest name id

/-- The identifiers of columns by their names. -/
def namesOf (columns : List Column) : Names :=
  columns.foldl (fun names c => enterName names c.name c.id) []

/-- The name that belongs to an identifier. -/
def nameOf? (names : Names) (columnId : String) : Option String :=
  (names.find? (·.2 = columnId)).map (·.1)

/-- The key of a cell by the identifier of its column. -/
def cellKey (names : Names) : Value → Value
  | .text name => .text ((names.lookup name).getD name)
  | k => k

/-- The cells of a record by the identifiers of their columns. -/
def cellsOf (names : Names) (fields : Value) : Except SourceError (List (Value × Value)) :=
  if fields.isTruthy then
    match fields with
    | .map entries => .ok (Value.ofPairs (entries.map fun e => (cellKey names e.1, e.2)))
    | _ => .error (.fault .noAttribute)
  else .ok []

/-- The time of a change: a number without its fraction. Anything that is no number is no time. -/
def changeTime : Value → Except SourceError (Option Number)
  | .bool b => .ok (some (.int (Value.ofBool b)))
  | .int n => .ok (some (.int n))
  | .float .nan => .error (.fault .undefinedNumber)
  | .float x =>
    match x.truncate? with
    | some n => .ok (some (.int n))
    | none => .error (.fault .outOfRange)
  | _ => .ok none

/-- The identifier of a person, if there is one. -/
def personId (v : Value) : Option String :=
  let id := v.get "id"
  if id.isTruthy then some id.plain else none

/-- The record that an item describes, which must be a mapping. -/
def recordOf (names : Names) (item : Value) : Except SourceError Record := do
  let cells ← attribute? item "fields" >>= cellsOf names
  let time ← changeTime (item.get "last_modified_time")
  .ok ⟨(item.get "record_id").plain, cells, personId (item.get "last_modified_by"), time⟩

/-- The records that items describe. -/
def recordsOf (names : Names) : List Value → Except SourceError (List Record)
  | [] => .ok []
  | item :: items => do
    let r ← recordOf names item
    let rs ← recordsOf names items
    .ok (r :: rs)

/-- The identifier of the record that an item describes, which must be a mapping. -/
def recordIdOf (item : Value) : Except SourceError String :=
  (attribute? item "record_id").map Value.plain

/-- The identifiers of the records that items describe. -/
def recordIdsOf (items : List Value) : Except SourceError (List String) :=
  items.mapM recordIdOf

end TableAudit.Remote
