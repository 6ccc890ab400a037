import TableAudit.Remote.Table
import TableAudit.Source.Basic
import TableAudit.Table.Document

/-!
# Trials of a remote source

A source over a server whose replies are laid down, put to one action after another. Every table
that is opened remembers its columns for itself.
-/

namespace TableAudit.Remote

open TableAudit.Http

/-- How far a trial is. -/
structure Trial where
  /-- The table that is selected. -/
  selected : Location
  viewId : Value
  table : Location
  memory : Memory
  replies : List Reply
  now : Calendar.Moment

/-- What an action led to. -/
structure Trial.Step where
  result : Except SourceError Value
  requests : List Request
  next : Trial

namespace Trial

/-- Nothing was done yet. -/
def start (selected table : Location) (viewId : Value) (replies : List Reply)
    (now : Calendar.Moment) : Trial :=
  ⟨selected, viewId, table, none, replies, now⟩

/-- Hold an exchange with the table. -/
def hold {α : Type} (t : Trial) (document : α → Value) (x : TableExchange α) : Step :=
  let held := ((x.run).run t.memory).hold t.now t.replies
  let (result, memory) := held.result
  ⟨result.map document, held.requests, { t with memory := memory, replies := held.left }⟩

/-- Ask for the columns and read the rows. -/
def rows (t : Trial) (pages : Nat) (viewId : Value) (pageSize : Number) :
    TableExchange (List Row) := do
  let columns ← fields t.table pages
  Remote.readRows t.table pages ⟨columns, viewId, pageSize⟩

/-- An action. There are at most as many pages as replies; changes of tables cannot be watched. -/
def act (t : Trial) (a : SourceAction) : Step :=
  let pages := t.replies.length + 1
  match a with
  | .selection => ⟨.ok (Selection.mk (.text t.selected.tableId) t.viewId).document, [], t⟩
  | .appToken => ⟨.ok (.text t.table.appToken), [], t⟩
  | .openTable id =>
    ⟨.ok id, [], { t with table := { t.selected with tableId := id.plain }, memory := none }⟩
  | .watch _ => ⟨.error (.fault .noAttribute), [], t⟩
  | .readRows viewId pageSize =>
    t.hold (fun rs => .list (rs.map Row.document)) (t.rows pages viewId pageSize)
  | .visible viewId => t.hold TableReply.document (answer t.table pages (.visibleIds ⟨viewId, true⟩))
  | .ask c => t.hold TableReply.document (answer t.table pages c)
  | _ => ⟨.ok .null, [], t⟩

end Trial

end TableAudit.Remote
