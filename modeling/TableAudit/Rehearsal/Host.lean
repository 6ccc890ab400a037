import TableAudit.Embedded.Bridge
import TableAudit.Monitor.Basic

/-!
# Hosts in memory

A host that keeps its tables in memory and serves a monitor as an embedding host does. Records
come in pages with their offset as the token. Any of its methods can be made to fail.
-/

namespace TableAudit.Rehearsal

open TableAudit.Embedded (BridgeCall BridgeReply)

/-- A record in memory. -/
structure HostRecord where
  id : String
  fields : List (Value × Value)
deriving Repr

/-- A table in memory: its columns as the host describes them, its records, those that its views
show, and the results of writes to come. -/
structure HostTable where
  columns : List Value
  records : List HostRecord
  visible : Option (List String)
  writes : List Bool
deriving Repr

/-- A host. -/
structure Host where
  tables : List (String × HostTable)
  selection : Value
  /-- The methods that fail, and their messages. -/
  failing : List (String × String)
deriving Repr

namespace Host

/-- The table with an identifier. -/
def table? (h : Host) (id : Value) : Option HostTable :=
  id.text?.bind fun s => h.tables.lookup s

/-- Change a table. -/
def change (id : String) (f : HostTable → HostTable) (h : Host) : Host :=
  { h with tables := h.tables.map fun t => if t.1 = id then (t.1, f t.2) else t }

/-- The offset that a token stands for. -/
def offset (token : Value) : Nat :=
  ((token.text?.bind String.toNat?).getD 0)

/-- The method that a call is of. -/
def method : SourceCall → String
  | .selection => "getSelection"
  | .openTable _ => "getTableById"
  | .table _ c => (Embedded.callFor c).method

/-- A call as it is noted: calls for columns and records with their table, and the latter with
their offset. -/
def noted : SourceCall → BridgeCall
  | .selection => Embedded.selectionCall
  | .openTable id => Embedded.openCall id
  | .table t .fields => ⟨"getFieldMetaList", [t.id]⟩
  | .table t (.records size token) => ⟨"getRecords", [t.id, size.toValue, .int (offset token)]⟩
  | .table _ c => Embedded.callFor c

/-- A record as the host describes it. -/
def describe (r : HostRecord) : Value :=
  .object [("recordId", .text r.id), ("fields", .map r.fields)]

/-- A size of pages as a count of records, without a fraction. -/
def wholeSize : Number → Nat
  | .int n => n.toNat
  | .float x => ((x.truncate?).getD 0).toNat

/-- A page of records from an offset on. -/
def page (t : HostTable) (size : Nat) (start : Nat) : Value :=
  let stop := start + size
  let hasMore := stop < t.records.length
  .object [("records", .list (((t.records.drop start).take size).map describe)),
    ("hasMore", .bool hasMore),
    ("pageToken", if hasMore then .text (toString stop) else .null)]

/-- The payload of a cell. -/
def payload (t : HostTable) (columnId recordId : String) : Value :=
  match t.records.find? (·.id = recordId) with
  | none => .null
  | some r => (Value.lookup r.fields columnId).getD .null

/-- Store a payload. A record that is not there is not made. -/
def store (columnId recordId : String) (v : Value) (t : HostTable) : HostTable :=
  { t with records := t.records.map fun r =>
      if r.id = recordId then { r with fields := Value.insert r.fields (.text columnId) v } else r }

/-- Write a cell: the next result to come, and the table after it. -/
def write (columnId recordId : String) (v : Value) (t : HostTable) : Bool × HostTable :=
  match t.writes with
  | [] => (true, store columnId recordId v t)
  | ok :: rest =>
    let t := { t with writes := rest }
    (ok, if ok then store columnId recordId v t else t)

/-- The identifiers that a view shows. -/
def shown (t : HostTable) : List String :=
  t.visible.getD (t.records.map (·.id))

/-- What a question to a table comes to. -/
def serveTable (h : Host) (id : Value) (c : TableCall) : BridgeReply × Host :=
  match h.table? id with
  | none => (.raised id.literal, h)
  | some t =>
    match c with
    | .fields => (.value (.list t.columns), h)
    | .records size token => (.value (page t (wholeSize size) (offset token)), h)
    | .view _ => (.host, h)
    | .visibleIds _ => (.value (.list ((shown t).map .text)), h)
    | .cell columnId recordId => (.value (payload t columnId recordId), h)
    | .setCell columnId recordId v =>
      let (ok, t) := write columnId recordId v t
      (.value (.bool ok), h.change ((id.text?).getD "") fun _ => t)

/-- The reply to a question, and the host after it. -/
def serve (h : Host) (c : SourceCall) : SourceReply × Host :=
  match h.failing.lookup (method c) with
  | some message => (.failed (.failure (method c ++ ": " ++ message)), h)
  | none =>
    match c with
    | .selection => (.selection (Embedded.selectionOf h.selection), h)
    | .openTable id =>
      if (h.table? id).isSome then (.opened true, h)
      else (.failed (.failure (method c ++ ": " ++ id.literal)), h)
    | .table t c =>
      let (r, h) := h.serveTable t.id c
      (.table (Embedded.reply c r), h)

end Host

end TableAudit.Rehearsal
