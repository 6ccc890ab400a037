import TableAudit.Embedded.Payload

/-!
# The bridge to an embedding host

A host offers its tables through a bridge of methods. Every question to a table or to the source
is one call of a method. What a call raises is reported as a failure with the method's name in
front, unless the host reports it as a failure of its own.
-/

namespace TableAudit.Embedded

/-- A call of a method. -/
structure BridgeCall where
  method : String
  arguments : List Value
deriving Inhabited, Repr

/-- What a call comes to. -/
inductive BridgeReply
  | value (v : Value)
  /-- An object that has the methods of the bridge. -/
  | host
  /-- A failure that the host reports itself. -/
  | failure (message : String)
  | raised (message : String)
deriving Inhabited, Repr

/-- The call for the current selection. -/
def selectionCall : BridgeCall := ⟨"getSelection", []⟩

/-- The call that opens a table. -/
def openCall (tableId : Value) : BridgeCall := ⟨"getTableById", [tableId]⟩

/-- The parameters of a call for records. -/
def recordsParameters (size : Number) (token : Value) : Value :=
  .object (("pageSize", size.toValue) ::
    if token.isTruthy then [("pageToken", token)] else [])

/-- The call for a question to a table. -/
def callFor : TableCall → BridgeCall
  | .fields => ⟨"getFieldMetaList", []⟩
  | .records size token => ⟨"getRecords", [recordsParameters size token]⟩
  | .view id => ⟨"getViewById", [id]⟩
  | .visibleIds _ => ⟨"getVisibleRecordIdList", []⟩
  | .cell columnId recordId => ⟨"getCellValue", [.text columnId, .text recordId]⟩
  | .setCell columnId recordId value => ⟨"setCellValue", [.text columnId, .text recordId, value]⟩

/-- What a call came to, as a value or as an error. An object of the host is a value that a
condition takes as true and that has no parts. -/
def outcome (method : String) : BridgeReply → Except SourceError Value
  | .value v => .ok v
  | .host => .ok (.record [])
  | .failure message => .error (.failure message)
  | .raised message => .error (.failure (method ++ ": " ++ message))

/-- A result that may be a fault, as a reply. -/
def replyOf {α : Type} (f : α → TableReply) : Except Fault α → TableReply
  | .ok a => f a
  | .error e => .failed (.fault e)

/-- The reply to a question, from what its call came to. -/
def reply (c : TableCall) (r : BridgeReply) : TableReply :=
  match outcome (callFor c).method r with
  | .error e => .failed e
  | .ok v =>
    match c with
    | .fields => replyOf .fields (do (← itemsOrNone v).mapM columnOf)
    | .records _ _ => replyOf .page (pageOf v)
    | .view id => .view ⟨id, match r with | .host => true | _ => false⟩
    | .visibleIds _ => replyOf .visibleIds (visibleOf v)
    | .cell _ _ => .cell v
    | .setCell _ _ _ => .stored v.isTruthy

/-- Whether a question is put to something that answers. A view that was given as something else
than an object of the host does not. -/
def isAnswered : TableCall → Bool
  | .visibleIds view => view.answers
  | _ => true

end TableAudit.Embedded
