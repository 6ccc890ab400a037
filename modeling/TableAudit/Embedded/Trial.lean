import TableAudit.Embedded.Scripted
import TableAudit.Table.Document

/-!
# Trials of an embedded source

A source over a scripted bridge, put to one action after another. The table that was opened last
is kept; where none was, the first action on a table opens one.
-/

namespace TableAudit.Embedded

/-- How far a trial is. -/
structure Trial where
  script : Script
  table : Option TableHandle
  listeners : Listeners
deriving Repr

/-- What an action led to. -/
structure Trial.Step where
  result : Except SourceError Value
  calls : List BridgeCall
  delivered : List Delivered
  next : Trial

namespace Trial

/-- Nothing was done yet. -/
def start (s : Script) : Trial := ⟨s, none, .none⟩

/-- The table that is opened where none was. -/
def usualTable : Value := .text "tbl1"

/-- Register a listener; the result is its number. -/
def register (t : Trial) (kind : EventKind) (calls : List BridgeCall) : Step :=
  let (n, listeners) := t.listeners.register kind
  ⟨.ok (.int n), calls, [], { t with listeners := listeners }⟩

/-- The document of a reply, or its error. -/
def resultOf : TableReply → Except SourceError Value
  | .failed e => .error e
  | r => .ok r.document

/-- An action on an open table. -/
def onTable (t : Trial) (h : TableHandle) (calls : List BridgeCall) : SourceAction → Step
  | .watch kind =>
    if h.answers then t.register kind calls else ⟨.error (.fault .noAttribute), calls, [], t⟩
  | .readRows viewId pageSize =>
    let (rows, more) := Embedded.readRows t.script h viewId pageSize
    ⟨rows.map fun rs => .list (rs.map Row.document), calls ++ more, [], t⟩
  | .visible viewId =>
    let (reply, more) := readVisible t.script h viewId
    ⟨resultOf reply, calls ++ more, [], t⟩
  | .ask c =>
    let (reply, more) := Embedded.ask t.script h c
    ⟨resultOf reply, calls ++ more, [], t⟩
  | _ => ⟨.ok .null, calls, [], t⟩

/-- An action on the table that was opened last. -/
def onLastTable (t : Trial) (a : SourceAction) : Step :=
  match t.table with
  | some h => t.onTable h [] a
  | none =>
    let (opened, calls) := Embedded.openTable t.script usualTable
    match opened with
    | .error e => ⟨.error e, calls, [], t⟩
    | .ok h => { t with table := some h }.onTable h calls a

/-- An action. -/
def act (t : Trial) : SourceAction → Step
  | .selection =>
    let value := outcome selectionCall.method (t.script.reply selectionCall)
    ⟨value.map fun v => (selectionOf v).document, [selectionCall], [], t⟩
  | .openTable id =>
    let (opened, calls) := Embedded.openTable t.script id
    match opened with
    | .ok h => ⟨.ok h.id, calls, [], { t with table := some h }⟩
    | .error e => ⟨.error e, calls, [], t⟩
  | .watchSelection => t.register .selection []
  | .stopWatching n =>
    if n < t.listeners.registered then
      ⟨.ok .null, [], [], { t with listeners := t.listeners.takeOff n }⟩
    else ⟨.error (.fault .noPlace), [], [], t⟩
  | .fire kind event =>
    match t.listeners.fire kind event with
    | .ok ds => ⟨.ok .null, [], ds, t⟩
    | .error f => ⟨.error (.fault f), [], [], t⟩
  | a => t.onLastTable a

/-- The kinds of events that have listeners, with how many they have. -/
def listenerCounts (t : Trial) : List (EventKind × Nat) :=
  (EventKind.all.map fun k => (k, t.listeners.count k)).filter (·.2 ≠ 0)

end Trial

end TableAudit.Embedded
