import TableAudit.Defaults.Population
import TableAudit.Pass.Basic
import TableAudit.Table.Reading

/-!
# Monitors

A monitor keeps one table in view: it is told of changes to records and to the selection, forgets
what it knew at every change, gathers bursts of changes with a timer, and makes one pass at a
time. It works in tasks that run side by side. A task goes on until it has to wait, for a reply of
the source, for time to pass, or for the columns of a pass to take their turns; only then is
another one's turn. What a monitor wants done it leaves in its outbox.
-/

namespace TableAudit

/-- A table that was opened. Every opening gives a new one, known by a serial number. -/
structure OpenTable where
  serial : Nat
  id : Value
  /-- Whether it tells of changes to its records. -/
  observable : Bool
deriving Inhabited, Repr

/-- What a monitor asks of a source. -/
inductive SourceCall
  | selection
  | openTable (id : Value)
  | table (t : OpenTable) (c : TableCall)
deriving Repr

/-- What a source replies. -/
inductive SourceReply
  | selection (s : Selection)
  /-- The table is open; whether it tells of changes to its records. -/
  | opened (observable : Bool)
  | table (r : TableReply)
  | failed (e : SourceError)
deriving Repr

/-- What can happen to the records of a table. -/
inductive RecordEvent
  | added
  | modified
  | deleted
deriving DecidableEq, Repr

/-- What a monitor is told of. -/
inductive Watched
  | selection
  | records (t : OpenTable) (e : RecordEvent)
deriving Repr

/-- A subscription, known by its number. -/
structure Subscription where
  number : Nat
  watched : Watched
deriving Repr

/-- How a monitor works, and with what kind of source. -/
structure MonitorSettings where
  chunkSize : Number
  pageSize : Number
  /-- How long the timer waits for further changes. -/
  debounce : Number
  retry : RetryPolicy
  messages : Messages
  now : Calendar.Moment
  timestamp : String
  /-- The calls at which the listener fails, counted from 1, if anyone listens. -/
  listener : Option (List Nat)
  /-- Whether the source tells of changes to the selection. -/
  watchesSelection : Bool
  /-- Whether a subscription can be taken back. -/
  unsubscribes : Bool
deriving Repr

/-- What a task is for. The last three are begun by the monitor itself. -/
inductive TaskKind
  | start
  | stop
  | trigger
  | elapsed
  | switch
  | added (ids : List String)
deriving DecidableEq, Repr

namespace TaskKind

/-- Whether the monitor begins such tasks itself. -/
def isOwn : TaskKind → Bool
  | elapsed => true
  | switch => true
  | added _ => true
  | _ => false

end TaskKind

/-- What a pass waits for. -/
inductive PassStage
  | fields
  | reading (columns : List Column) (generation : Nat) (r : Reading)
  | checking (pass : Pass)
deriving Repr

/-- A pass over a table, under the view that was selected when it began. -/
structure PassRun where
  table : OpenTable
  viewId : Value
  stage : PassStage
deriving Repr

/-- What a task waits for. -/
inductive Phase
  /-- Its first turn. -/
  | ready
  | selecting
  | opening (tableId : Value)
  | passing (p : PassRun)
  /-- The columns of a table to which records were added. -/
  | adding (t : OpenTable) (ids : List String)
  | populating (t : OpenTable) (p : Defaults.Population)
  /-- The end of other tasks. -/
  | stopping (others : List Nat)
deriving Repr

/-- A task, known by its number. -/
structure Task where
  number : Nat
  kind : TaskKind
  phase : Phase
deriving Repr

/-- How a task ends. -/
inductive TaskOutcome
  | nothing
  | report (r : Report)
  | listenerFailed
  | noChunk
  | noAttempt
  | fault (f : Fault)
  | unfinished
  | cancelled
deriving Repr

/-- What a monitor wants done. -/
inductive Effect
  | spawn (task : Nat)
  | ask (task : Nat) (c : SourceCall)
  | sleep (task : Nat) (wait : Number)
  /-- The columns of a pass are to take their turns. -/
  | columns (task count : Nat)
  | cancel (task : Nat)
  /-- A task waits for others to end. -/
  | join (task : Nat) (others : List Nat)
  | ended (task : Nat) (o : TaskOutcome)
  | arm (timer : Nat) (delay : Number)
  | disarm (timer : Nat)
  | subscribe (s : Subscription)
  | unsubscribe (s : Subscription)
  | publish (d : Display)
deriving Repr

/-- A monitor. -/
structure Monitor where
  settings : MonitorSettings
  session : Session
  display : Display
  passesStarted : Nat
  table : Option OpenTable
  selection : Selection
  inFlight : Bool
  switchPending : Bool
  running : Bool
  timer : Option Nat
  tableSubscriptions : List Subscription
  selectionSubscription : Option Subscription
  tasks : List Task
  /-- How often the listener was called. -/
  published : Nat
  nextTask : Nat
  nextTimer : Nat
  nextSubscription : Nat
  nextTable : Nat
  outbox : List Effect
deriving Repr

namespace Monitor

/-- A monitor before anything happened. -/
def initial (s : MonitorSettings) : Monitor where
  settings := s
  session := Session.fresh
  display := ⟨none, none⟩
  passesStarted := 0
  table := none
  selection := Selection.none
  inFlight := false
  switchPending := false
  running := false
  timer := none
  tableSubscriptions := []
  selectionSubscription := none
  tasks := []
  published := 0
  nextTask := 0
  nextTimer := 0
  nextSubscription := 0
  nextTable := 0
  outbox := []

/-- Leave something to be done. -/
def emit (e : Effect) (m : Monitor) : Monitor :=
  { m with outbox := m.outbox ++ [e] }

/-- The task with a number. -/
def task? (m : Monitor) (t : Nat) : Option Task :=
  m.tasks.find? (·.number = t)

/-- What a task is for. -/
def kind? (m : Monitor) (t : Nat) : Option TaskKind :=
  (m.task? t).map (·.kind)

/-- Have a task wait for something. -/
def setPhase (t : Nat) (p : Phase) (m : Monitor) : Monitor :=
  { m with tasks := m.tasks.map fun x => if x.number = t then { x with phase := p } else x }

/-- Have a task wait for a reply of the source. -/
def ask (t : Nat) (p : Phase) (c : SourceCall) (m : Monitor) : Monitor :=
  (m.setPhase t p).emit (.ask t c)

/-- End a task. -/
def finish (t : Nat) (o : TaskOutcome) (m : Monitor) : Monitor :=
  { m with tasks := m.tasks.filter (·.number ≠ t) }.emit (.ended t o)

/-- Begin a task, which has its first turn later. -/
def spawn (k : TaskKind) (m : Monitor) : Monitor :=
  let task : Task := ⟨m.nextTask, k, .ready⟩
  { m with tasks := m.tasks ++ [task], nextTask := m.nextTask + 1 }.emit (.spawn m.nextTask)

/-- Forget rows and checks. -/
def invalidate (m : Monitor) : Monitor :=
  { m with session := m.session.invalidate }

/-- Stop the timer. -/
def cancelTimer (m : Monitor) : Monitor :=
  match m.timer with
  | none => m
  | some i => { m with timer := none }.emit (.disarm i)

/-- Start the timer afresh, while the monitor runs. -/
def armTimer (m : Monitor) : Monitor :=
  if m.running then
    let m := m.cancelTimer
    { m with timer := some m.nextTimer, nextTimer := m.nextTimer + 1 }.emit
      (.arm m.nextTimer m.settings.debounce)
  else m

/-- Subscribe to something: the subscription if it can be taken back. -/
def subscribe (w : Watched) (m : Monitor) : Option Subscription × Monitor :=
  let s : Subscription := ⟨m.nextSubscription, w⟩
  let m := { m with nextSubscription := m.nextSubscription + 1 }.emit (.subscribe s)
  (if m.settings.unsubscribes then some s else none, m)

/-- Subscribe to everything that can happen to the records of a table. The subscriptions take the
place of those that were kept. -/
def subscribeRecords (t : OpenTable) (m : Monitor) : Monitor :=
  let (a, m) := m.subscribe (.records t .added)
  let (b, m) := m.subscribe (.records t .modified)
  let (c, m) := m.subscribe (.records t .deleted)
  { m with tableSubscriptions := a.toList ++ b.toList ++ c.toList }

/-- Take back the subscriptions to the table, and let go of it. -/
def detach (m : Monitor) : Monitor :=
  let subscriptions := m.tableSubscriptions
  let m := { m with tableSubscriptions := [] }
  let m := subscriptions.foldl (fun m s => m.emit (.unsubscribe s)) m
  { m with table := none }

/-- Show an outcome, and tell the listener: whether it failed. -/
def publish (d : Display) (m : Monitor) : Bool × Monitor :=
  let m := { m with display := d }
  match m.settings.listener with
  | none => (false, m)
  | some failing =>
    let m := { m with published := m.published + 1 }.emit (.publish d)
    (failing.contains m.published, m)

end Monitor

end TableAudit
