import TableAudit.Source.Basic

/-!
# Payloads of an embedding host

Columns, records and selections as a host describes them: as mappings or as objects with
attributes. A payload that is gone through may be a list, the keys of a mapping, or the characters
of a text.
-/

namespace TableAudit.Embedded

/-- An entry of a mapping or an attribute of an object. -/
def part? (v : Value) (key : String) : Option Value :=
  match v with
  | .map entries => Value.lookup entries key
  | .record attributes => attributes.lookup key
  | _ => none

/-- An entry or an attribute, nothing where it is missing. -/
def part (v : Value) (key : String) : Value :=
  (part? v key).getD .null

/-- The text of an entry or attribute, the empty text where it is missing. -/
def partText (v : Value) (key : String) : Except Fault String :=
  match part? v key with
  | none => .ok ""
  | some p => p.written

/-- The value, or a default where a condition does not take it as true. -/
def orElse (v default : Value) : Value :=
  if v.isTruthy then v else default

/-- What a value that can be gone through is made of. -/
def items : Value → Except Fault (List Value)
  | .list vs => .ok vs
  | .tuple vs => .ok vs
  | .map entries => .ok (entries.map (·.1))
  | .text s => .ok (s.toList.map fun c => .text c.toString)
  | .bytes bs => .ok (bs.map fun b => .int b.toNat)
  | _ => .error .wrongKind

/-- What a value is made of; nothing where a condition does not take it as true. -/
def itemsOrNone (v : Value) : Except Fault (List Value) :=
  if v.isTruthy then items v else .ok []

/-- The column that a host describes. -/
def columnOf (v : Value) : Except Fault Column := do
  let id ← partText v "id"
  let name ← partText v "name"
  let t ← ColumnType.ofCode (part v "type")
  .ok ⟨id, name, t, part v "description", orElse (part v "property") (.map [])⟩

mutual

/-- Whether a value can be the key of a mapping. -/
def isKey : Value → Bool
  | .list _ => false
  | .map _ => false
  | .tuple items => areKeys items
  | _ => true

/-- Whether all of a list of values can be keys of mappings. -/
def areKeys : List Value → Bool
  | [] => true
  | v :: vs => isKey v && areKeys vs

end

/-- The pair that a value is made of, as an entry of a mapping. -/
def pairOf (v : Value) : Except Fault (Value × Value) := do
  match ← items v with
  | [k, x] => if isKey k then .ok (k, x) else .error .wrongKind
  | _ => .error .malformed

/-- The entries of a mapping, or of a list of pairs. -/
def entriesOf (v : Value) : Except Fault (List (Value × Value)) :=
  if v.isTruthy then
    match v with
    | .map entries => .ok entries
    | v => do
      let pairs ← (← items v).mapM pairOf
      .ok (Value.ofPairs pairs)
  else .ok []

/-- The time of a change: a number without its fraction. -/
def changeTime : Value → Except Fault (Option Number)
  | .bool b => .ok (some (.int (Value.ofBool b)))
  | .int n => .ok (some (.int n))
  | .float .nan => .error .undefinedNumber
  | .float x =>
    match x.truncate? with
    | some n => .ok (some (.int n))
    | none => .error .outOfRange
  | _ => .ok none

/-- The identifier of a person, if there is one. -/
def personId (v : Value) : Except Fault (Option String) :=
  let id := part v "id"
  if id.isTruthy then id.written.map some else .ok none

/-- The record that a host describes. -/
def recordOf (v : Value) : Except Fault Record := do
  let id ← partText v "recordId"
  let cells ← entriesOf (part v "fields")
  let editor ← personId (part v "lastModifiedBy")
  let time ← changeTime (part v "lastModifiedTime")
  .ok ⟨id, cells, editor, time⟩

/-- The page of records that a host describes. -/
def pageOf (v : Value) : Except Fault Page := do
  let records ← (← itemsOrNone (part v "records")).mapM recordOf
  .ok ⟨records, (part v "hasMore").isTruthy, part v "pageToken"⟩

/-- The selection that a host describes. -/
def selectionOf (v : Value) : Selection :=
  ⟨part v "tableId", part v "viewId"⟩

/-- The identifiers of records in a list. Empty ones are left out. -/
def visibleOf (v : Value) : Except Fault (List String) := do
  ((← items v).filter Value.isTruthy).mapM Value.written

/-- The identifiers of the records that an event says were added. -/
def addedIds (event : Value) : Except Fault (List String) :=
  match (part? event "data").getD event with
  | .list vs => vs.mapM Value.written
  | .tuple vs => vs.mapM Value.written
  | _ => .ok []

end TableAudit.Embedded
