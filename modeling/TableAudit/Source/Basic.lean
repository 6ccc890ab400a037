import TableAudit.Fault
import TableAudit.Table.Row

/-!
# Sources of tables

A source has a current selection and opens tables. A table answers questions on its columns,
records, views and cells; whoever needs them puts one question at a time and goes on with the
reply. What a source reports as a failure is a `SourceError.failure`; a payload of an unexpected
shape may be a fault instead.
-/

namespace TableAudit

/-- Why a question to a source has no reply. -/
inductive SourceError
  /-- The source, or the way to it, failed. -/
  | failure (message : String)
  /-- The reply has a shape that cannot be worked with. -/
  | fault (f : Fault)
  /-- More pages were promised than were allowed for. -/
  | unfinished
deriving DecidableEq, Repr

namespace SourceError

/-- The message of a failure. The other errors have none. -/
def text : SourceError → String
  | failure message => message
  | _ => ""

/-- The error as a fault: a failure is none in itself, but where it leaves an operation that
handles failures it is a value of the wrong kind. -/
def asFault : SourceError → Fault
  | fault f => f
  | _ => .wrongKind

end SourceError

/-- The table and the view that are selected. -/
structure Selection where
  tableId : Value
  viewId : Value
deriving Inhabited, Repr

/-- Nothing selected. -/
def Selection.none : Selection := ⟨.null, .null⟩

/-- A page of records. The token asks for the page that follows. -/
structure Page where
  records : List Record
  hasMore : Bool
  token : Value
deriving Inhabited, Repr

/-- A view that was opened. What a source gave for it may be nothing that answers. -/
structure ViewHandle where
  id : Value
  answers : Bool
deriving Inhabited, Repr

/-- A question to a table. A view is asked about by the handle it was opened with. -/
inductive TableCall
  | fields
  | records (size : Number) (token : Value)
  | view (id : Value)
  | visibleIds (view : ViewHandle)
  | cell (columnId recordId : String)
  | setCell (columnId recordId : String) (value : Value)
deriving Repr

/-- A reply of a table. -/
inductive TableReply
  | fields (columns : List Column)
  | page (p : Page)
  | view (handle : ViewHandle)
  | visibleIds (ids : List String)
  | cell (payload : Value)
  | stored (accepted : Bool)
  | failed (e : SourceError)
deriving Repr

/-! ### Actions -/

/-- What can be listened to. -/
inductive EventKind
  | add
  | modify
  | delete
  | selection
deriving DecidableEq, Repr

/-- The name of a kind of event. -/
def EventKind.name : EventKind → String
  | add => "add"
  | modify => "modify"
  | delete => "delete"
  | selection => "selection"

/-- All kinds of events. -/
def EventKind.all : List EventKind := [.add, .modify, .delete, .selection]

/-- An action on a source, or on the table that was opened last. -/
inductive SourceAction
  | selection
  | appToken
  | openTable (id : Value)
  | watchSelection
  | watch (kind : EventKind)
  /-- Stop the subscription of a number. -/
  | stopWatching (number : Nat)
  /-- Let an event happen. -/
  | fire (kind : EventKind) (event : Option Value)
  | readRows (viewId : Value) (pageSize : Number)
  | visible (viewId : Value)
  | ask (c : TableCall)
deriving Repr

end TableAudit
