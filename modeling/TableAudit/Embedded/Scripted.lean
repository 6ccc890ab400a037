import TableAudit.Embedded.Bridge
import TableAudit.Source.Basic
import TableAudit.Table.Reading

/-!
# Scripted bridges

A bridge whose methods return what a script says, for trying out what is made of it. It also keeps
the listeners that were registered, and delivers events to them.
-/

namespace TableAudit.Embedded

/-- What a script says about a method. -/
inductive ScriptedReply
  | reply (r : BridgeReply)
  /-- What is returned depends on the text of the page token. -/
  | byToken (pages : List (String × BridgeReply))
deriving Repr

/-- What a bridge returns by its methods. -/
abbrev Script := List (String × ScriptedReply)

namespace Script

/-- The text of the page token in the arguments of a call. -/
def tokenText (arguments : List Value) : String :=
  ((arguments.head?).getD .null |>.get "pageToken").plain

/-- What a call comes to. A method that the script does not mention returns nothing. -/
def reply (s : Script) (c : BridgeCall) : BridgeReply :=
  match s.lookup c.method with
  | none => .value .null
  | some (.reply r) => r
  | some (.byToken pages) => (pages.lookup (tokenText c.arguments)).getD (.value .null)

/-- How many questions reading rows takes at most if it ends at all. -/
def readBound (s : Script) : Nat :=
  s.foldl (fun n e => match e.2 with
    | .byToken pages => n + pages.length
    | .reply _ => n) 5

end Script

/-- A table as a source opened it. What the host gave for it may be nothing that answers. -/
structure TableHandle where
  id : Value
  answers : Bool
deriving Repr

/-- Open a table. -/
def openTable (s : Script) (id : Value) : Except SourceError TableHandle × List BridgeCall :=
  let call := openCall id
  let reply := s.reply call
  let result := (outcome call.method reply).map fun _ =>
    (⟨id, match reply with | .host => true | _ => false⟩ : TableHandle)
  (result, [call])

/-- Put a question to a table: the reply, and the call that was made, if any. -/
def ask (s : Script) (t : TableHandle) (c : TableCall) : TableReply × List BridgeCall :=
  if t.answers && isAnswered c then (reply c (s.reply (callFor c)), [callFor c])
  else (.failed (.fault .noAttribute), [])

/-- Go on reading rows, with a bound on the questions. -/
def readFrom (s : Script) (t : TableHandle) (q : RowQuery) :
    Nat → Reading → Except SourceError (List Row) × List BridgeCall
  | 0, _ => (.error .unfinished, [])
  | bound + 1, r =>
    let (reply, calls) := ask s t (r.call q)
    match r.resume q reply with
    | .rows rows => (.ok rows, calls)
    | .failed e => (.error e, calls)
    | .ask r =>
      let (result, more) := readFrom s t q bound r
      (result, calls ++ more)

/-- Ask for the columns of a table and read its rows. -/
def readRows (s : Script) (t : TableHandle) (viewId : Value) (pageSize : Number) :
    Except SourceError (List Row) × List BridgeCall :=
  let (reply, calls) := ask s t .fields
  match reply with
  | .fields columns =>
    let (result, more) := readFrom s t ⟨columns, viewId, pageSize⟩ s.readBound .start
    (result, calls ++ more)
  | .failed e => (.error e, calls)
  | _ => (.error (.fault .wrongKind), calls)

/-- Ask for the records that a view shows. -/
def readVisible (s : Script) (t : TableHandle) (viewId : Value) : TableReply × List BridgeCall :=
  let (opened, calls) := ask s t (.view viewId)
  match opened with
  | .view handle =>
    let (reply, more) := ask s t (.visibleIds handle)
    (reply, calls ++ more)
  | r => (r, calls)

/-- An event as a listener gets it: the records that were added, or no more than that something
happened. -/
inductive Delivered
  | added (ids : List String)
  | happened (kind : EventKind)
deriving DecidableEq, Repr

/-- The listeners of a bridge, by the number under which each was registered. -/
structure Listeners where
  registered : Nat
  active : List (Nat × EventKind)
deriving DecidableEq, Repr

namespace Listeners

/-- No listener yet. -/
def none : Listeners := ⟨0, []⟩

/-- Register a listener. -/
def register (l : Listeners) (kind : EventKind) : Nat × Listeners :=
  (l.registered, ⟨l.registered + 1, l.active ++ [(l.registered, kind)]⟩)

/-- Take a listener off. -/
def takeOff (l : Listeners) (number : Nat) : Listeners :=
  { l with active := l.active.filter (·.1 ≠ number) }

/-- How many listeners a kind of event has. -/
def count (l : Listeners) (kind : EventKind) : Nat :=
  (l.active.filter (·.2 = kind)).length

/-- What a listener makes of an event. Added records cannot be told without one. -/
def deliver (kind : EventKind) (event : Option Value) : Except Fault Delivered :=
  match kind, event with
  | .add, some e => (addedIds e).map .added
  | .add, Option.none => .error .wrongKind
  | k, _ => .ok (.happened k)

/-- Deliver an event to the listeners of its kind. -/
def fire (l : Listeners) (kind : EventKind) (event : Option Value) :
    Except Fault (List Delivered) :=
  (List.range (l.count kind)).mapM fun _ => deliver kind event

end Listeners

end TableAudit.Embedded
