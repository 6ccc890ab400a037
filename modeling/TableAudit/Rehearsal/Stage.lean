import TableAudit.Monitor.Step
import TableAudit.Rehearsal.Agenda
import TableAudit.Rehearsal.Host
import TableAudit.Remote.Table

/-!
# Stages

A stage is where a monitor is tried out: it carries out what the monitor leaves in its outbox,
against a host in memory or a remote interface with replies laid down beforehand. Time moves only
when it is told to. What can go on without time passing is queued; the queue is gone through in
rounds, and what is due joins it at the beginning of a round. Methods of the host can be blocked:
calls of them are noted and wait.
-/

namespace TableAudit.Rehearsal

open TableAudit.Number (Binary64)
open TableAudit.Http (Reply Request)

/-- A remote interface with replies laid down, and what is remembered of every table. -/
structure RemoteHost where
  location : Remote.Location
  viewId : Value
  replies : List Reply
  memories : List (Nat × Remote.Memory)
deriving Repr

/-- What serves a monitor. -/
inductive Backend
  | memory (h : Host)
  | remote (r : RemoteHost)
deriving Repr

/-- A call as it is noted. -/
inductive NotedCall
  | bridge (c : Embedded.BridgeCall)
  | request (r : Request)
deriving Repr

/-- Something that goes on without time passing. -/
inductive Job
  | begins (task : Nat)
  /-- A call that was blocked is served. -/
  | serve (task : Nat) (c : SourceCall)
  /-- The time of a wait is over. -/
  | waited (task : Nat)
  | woke (task : Nat)
  | elapsed (timer : Nat)
  | column (task place : Nat)
  | settled (task place : Nat)
  | passOver (task : Nat) (fault : Option Fault)
  /-- Of the tasks that a task waits for, one has ended. -/
  | oneJoined (task other : Nat)
  | joined (task : Nat)
  | cancelled (task : Nat)
deriving Repr

/-- What is due later. -/
inductive Timer
  | debounce (timer : Nat)
  | wait (task : Nat)
deriving DecidableEq, Repr

/-- A call that waits for its method. -/
structure Blocked where
  method : String
  task : Nat
  call : SourceCall
deriving Repr

/-- How many columns of a task's pass have announced themselves, of how many, and whether the pass
is over. -/
structure Announced where
  task : Nat
  settled : Nat
  total : Nat
  isOver : Bool
deriving DecidableEq, Repr

/-- The tasks that a task still waits for. -/
structure Joining where
  task : Nat
  others : List Nat
deriving DecidableEq, Repr

/-- A stage. -/
structure Stage where
  monitor : Monitor
  backend : Backend
  now : Binary64
  /-- What is left of the round. -/
  round : List Job
  /-- The next round. -/
  ready : List Job
  agenda : Agenda Timer
  /-- Timers that do not count any more. -/
  dropped : List Timer
  gates : List String
  blocked : List Blocked
  announced : List Announced
  joining : List Joining
  handlers : List Subscription
  /-- How often subscriptions were taken back, by what they were to. -/
  offs : List (String × Nat)
  calls : List NotedCall
  published : List Display
  ended : List (Nat × TaskOutcome)
deriving Repr

namespace Stage

/-- A stage before anything happened. -/
def initial (m : Monitor) (b : Backend) : Stage where
  monitor := m
  backend := b
  now := Binary64.zero false
  round := []
  ready := []
  agenda := #[]
  dropped := []
  gates := []
  blocked := []
  announced := []
  joining := []
  handlers := []
  offs := []
  calls := []
  published := []
  ended := []

/-- Something happens to the monitor. -/
def tell (e : MonitorEvent) (s : Stage) : Stage :=
  { s with monitor := s.monitor.step e }

/-- Queue something for the next round. -/
def queue (j : Job) (s : Stage) : Stage :=
  { s with ready := s.ready ++ [j] }

/-- The name of what a subscription is to. -/
def watchedName : Watched → String
  | .selection => "selection"
  | .records t .added => t.id.plain ++ ".add"
  | .records t .modified => t.id.plain ++ ".modify"
  | .records t .deleted => t.id.plain ++ ".delete"

/-- Count one more under a name. -/
def countOne : List (String × Nat) → String → List (String × Nat)
  | [], name => [(name, 1)]
  | (k, n) :: rest, name => if k = name then (k, n + 1) :: rest else (k, n) :: countOne rest name

/-- How many subscriptions there are, by what they are to. -/
def handlerCounts (s : Stage) : List (String × Nat) :=
  s.handlers.foldl (fun counts h => countOne counts (watchedName h.watched)) []

/-- What a remote interface replies: its selection and its tables without asking, all else by
requests. -/
def serveRemote (now : Calendar.Moment) (r : RemoteHost) : SourceCall → SourceReply × List Request × RemoteHost
  | .selection => (.selection ⟨.text r.location.tableId, r.viewId⟩, [], r)
  | .openTable _ => (.opened false, [], r)
  | .table t c =>
    let location := { r.location with tableId := t.id.plain }
    let memory := (r.memories.lookup t.serial).getD none
    let held := ((Remote.answer location (r.replies.length + 1) c).run.run memory).hold now r.replies
    let (result, memory) := held.result
    let memories := (t.serial, memory) :: r.memories.filter (·.1 ≠ t.serial)
    let reply := match result with
      | .ok reply => SourceReply.table reply
      | .error e => .failed e
    (reply, held.requests, { r with replies := held.left, memories := memories })

/-- Serve a call, and go on with the task that made it. -/
def serve (task : Nat) (c : SourceCall) (s : Stage) : Stage :=
  match s.backend with
  | .memory h =>
    let (reply, h) := h.serve c
    { s with backend := .memory h }.tell (.replied task reply)
  | .remote r =>
    let (reply, requests, r) := serveRemote s.monitor.settings.now r c
    let calls := s.calls ++ requests.map NotedCall.request
    { s with backend := .remote r, calls := calls }.tell (.replied task reply)

/-- Note a call, and serve it unless its method is blocked. -/
def call (task : Nat) (c : SourceCall) (s : Stage) : Stage :=
  match s.backend with
  | .remote _ => s.serve task c
  | .memory _ =>
    let s := { s with calls := s.calls ++ [NotedCall.bridge (Host.noted c)] }
    let waiting : Blocked := ⟨Host.method c, task, c⟩
    if s.gates.contains waiting.method then { s with blocked := s.blocked ++ [waiting] }
    else s.serve task c

/-- Put something on the agenda. -/
def schedule (t : Timer) (delay : Number) (s : Stage) : Stage :=
  let delay := (delay.toDouble?).getD (Binary64.zero false)
  { s with agenda := s.agenda.add ⟨s.now.add delay, t⟩ }

/-- Let a task wait. A wait of no time only goes to the next round. -/
def sleep (task : Nat) (wait : Number) (s : Stage) : Stage :=
  if wait.le (.int 0) then s.queue (.woke task) else s.schedule (.wait task) wait

/-- Whether a job is the next turn of a task. -/
def isTurnOf (task : Nat) : Job → Bool
  | .begins t => t == task
  | .serve t _ => t == task
  | .woke t => t == task
  | _ => false

/-- Give up a task: its next turn is its last. -/
def cancel (task : Nat) (s : Stage) : Stage :=
  let s := { s with
    blocked := s.blocked.filter (·.task ≠ task)
    dropped := .wait task :: s.dropped }
  if s.ready.any (isTurnOf task) then
    { s with ready := s.ready.map fun j => if isTurnOf task j then .cancelled task else j }
  else s.queue (.cancelled task)

/-- A task has ended: those that wait for it are told. -/
def endTask (task : Nat) (o : TaskOutcome) (s : Stage) : Stage :=
  let s := { s with
    announced := s.announced.filter (·.task ≠ task)
    ended := s.ended ++ [(task, o)] }
  (s.joining.filter (·.others.contains task)).foldl
    (fun s j => s.queue (.oneJoined j.task task)) s

/-- Carry out something that the monitor wants done. -/
def carryOut (e : Effect) (s : Stage) : Stage :=
  match e with
  | .spawn t => s.queue (.begins t)
  | .ask t c => s.call t c
  | .sleep t wait => s.sleep t wait
  | .columns t count =>
    (List.range count).foldl (fun s i => s.queue (.column t i))
      { s with announced := s.announced ++ [⟨t, 0, count, false⟩] }
  | .cancel t => s.cancel t
  | .join t others => { s with joining := s.joining ++ [⟨t, others⟩] }
  | .ended t o => s.endTask t o
  | .arm timer delay => s.schedule (.debounce timer) delay
  | .disarm timer => { s with dropped := .debounce timer :: s.dropped }
  | .subscribe sub => { s with handlers := s.handlers ++ [sub] }
  | .unsubscribe sub =>
    { s with
      handlers := s.handlers.filter (·.number ≠ sub.number)
      offs := countOne s.offs (watchedName sub.watched) }
  | .publish d => { s with published := s.published ++ [d] }

/-- The pass that a task makes, if its columns take turns. -/
def passOf? (m : Monitor) (task : Nat) : Option Pass :=
  match m.task? task with
  | some ⟨_, _, .passing ⟨_, _, .checking pass⟩⟩ => some pass
  | _ => none

/-- Whether the column at a place has turns left. -/
def isOpenAt (p : Pass) (i : Nat) : Bool :=
  (p.runs[i]?).any ColumnRun.isOpen

/-- The fault with which the column at a place failed. -/
def faultAt? (p : Pass) (i : Nat) : Option Fault :=
  match p.runs[i]? with
  | some (.failed f) => some f
  | _ => none

/-- The turn of a column, after which it queues again or announces itself. -/
def columnTurn (task i : Nat) (s : Stage) : Stage :=
  let s := s.tell (.column task i)
  match passOf? s.monitor task with
  | none => s
  | some p => s.queue (if isOpenAt p i then .column task i else .settled task i)

/-- A column announces itself: the last one ends the pass, and so does the first that failed. -/
def settle (task i : Nat) (s : Stage) : Stage :=
  match passOf? s.monitor task, s.announced.find? (·.task = task) with
  | some p, some a =>
    if a.isOver then s
    else
      let fault := faultAt? p i
      let a := { a with settled := a.settled + 1 }
      let isOver := fault.isSome || a.settled = a.total
      let a := { a with isOver := isOver }
      let s := { s with announced := s.announced.map fun b => if b.task = task then a else b }
      if isOver then s.queue (.passOver task fault) else s
  | _, _ => s

/-- One of the tasks that a task waits for has ended. -/
def joinOne (task other : Nat) (s : Stage) : Stage :=
  match s.joining.find? (·.task = task) with
  | none => s
  | some j =>
    let others := j.others.filter (· ≠ other)
    if others.isEmpty then
      { s with joining := s.joining.filter (·.task ≠ task) }.queue (.joined task)
    else
      { s with joining := s.joining.map fun k =>
          if k.task = task then { k with others := others } else k }

/-- Do a job. -/
def job (j : Job) (s : Stage) : Stage :=
  match j with
  | .begins t => s.tell (.begins t)
  | .serve t c => s.serve t c
  | .waited t => s.queue (.woke t)
  | .woke t => s.tell (.woke t)
  | .elapsed timer => s.tell (.elapsed timer)
  | .column t i => s.columnTurn t i
  | .settled t i => s.settle t i
  | .passOver t fault => s.tell (.passOver t fault)
  | .oneJoined t other => s.joinOne t other
  | .joined t => s.tell (.joined t)
  | .cancelled t => s.tell (.cancelled t)

/-- The job of something that is due. -/
def dueJob : Timer → Job
  | .debounce timer => .elapsed timer
  | .wait t => .waited t

/-- How much earlier than now something may be due to count as due now. -/
def tolerance : Binary64 := Binary64.ofRatio false 1 1000000000

/-- Begin a round with what is queued and what is due. -/
def beginRound (s : Stage) : Stage :=
  let counts (t : Timer) := !s.dropped.contains t
  let agenda := s.agenda.dropWhile counts s.agenda.size
  let (due, agenda) := agenda.takeBefore (s.now.add tolerance) agenda.size
  let jobs := (due.filter counts).map dueJob
  { s with agenda := agenda, round := s.ready ++ jobs, ready := [] }

/-- Go on until nothing can happen without time passing, for a number of steps at most. -/
def settleFor : Nat → Stage → Stage
  | 0, s => s
  | fuel + 1, s =>
    match s.monitor.outbox with
    | e :: rest =>
      settleFor fuel ({ s with monitor := { s.monitor with outbox := rest } }.carryOut e)
    | [] =>
      match s.round with
      | j :: rest => settleFor fuel ({ s with round := rest }.job j)
      | [] =>
        let s := s.beginRound
        if s.round.isEmpty then s else settleFor fuel s

/-- How many steps a stage goes on for at most. -/
def patience : Nat := 1000000

/-- Go on until nothing can happen without time passing. -/
def run (s : Stage) : Stage :=
  settleFor patience s

/-- The time of the first thing on the agenda that counts. -/
def nextTime? (s : Stage) : Option Binary64 :=
  let counts (t : Timer) := !s.dropped.contains t
  ((s.agenda.dropWhile counts s.agenda.size)[0]?).map (·.time)

/-- Let time pass until a moment, from one thing that is due to the next. -/
def advanceFor : Nat → Binary64 → Stage → Stage
  | 0, _, s => s
  | fuel + 1, target, s =>
    match s.nextTime? with
    | none => s
    | some time =>
      if time.compare? (target.add tolerance) == some .gt then s
      else
        let now := if time.compare? s.now == some .lt then s.now else time
        advanceFor fuel target { s with now := now }.run

/-- Let time pass. -/
def advance (seconds : Binary64) (s : Stage) : Stage :=
  let target := s.now.add seconds
  { s.run.advanceFor patience target with now := target }.run

/-- Deliver an event to the handlers of what it happens to. -/
def deliver (name : String) (e : MonitorEvent) (s : Stage) : Stage :=
  (s.handlers.filter fun h => watchedName h.watched = name).foldl (fun s _ => s.tell e) s

/-- Block a method, or let its calls go on. -/
def gate (method : String) (s : Stage) : Stage :=
  { s with gates := method :: s.gates }

/-- Let the calls of a method go on. -/
def ungate (method : String) (s : Stage) : Stage :=
  let released := s.blocked.filter (·.method = method)
  let s := { s with
    gates := s.gates.filter (· ≠ method)
    blocked := s.blocked.filter (·.method ≠ method) }
  released.foldl (fun s b => s.queue (.serve b.task b.call)) s

/-- Change the host in memory. -/
def changeHost (f : Host → Host) (s : Stage) : Stage :=
  match s.backend with
  | .memory h => { s with backend := .memory (f h) }
  | .remote _ => s

/-- Forget what was noted so far. -/
def forget (s : Stage) : Stage :=
  { s with calls := [], published := [], ended := [] }

end Stage

end TableAudit.Rehearsal
