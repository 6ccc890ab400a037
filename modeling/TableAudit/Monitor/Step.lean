import TableAudit.Monitor.Basic

/-!
# Steps of a monitor

What a monitor does when something happens. Each step is one uninterrupted turn: it goes on until
the task has to wait or ends. A request for a pass while one is in flight is dropped. A pass whose
table is no longer the attached one when it ends is not published; if the selection changed
meanwhile, the timer is started so that another pass follows.
-/

namespace TableAudit

/-- Something that happens to a monitor. -/
inductive MonitorEvent
  /-- Someone asks for a start, a stop or a pass. -/
  | request (k : TaskKind)
  /-- A task has its first turn. -/
  | begins (task : Nat)
  | replied (task : Nat) (r : SourceReply)
  /-- The wait of a task is over. -/
  | woke (task : Nat)
  /-- A column of a task's pass has a turn. -/
  | column (task place : Nat)
  /-- The columns of a task's pass are done, or one of them failed. -/
  | passOver (task : Nat) (fault : Option Fault)
  /-- The tasks that a task waited for have ended. -/
  | joined (task : Nat)
  | cancelled (task : Nat)
  | recordsAdded (ids : List String)
  | recordsChanged
  | selectionChanged
  /-- The timer has run down. -/
  | elapsed (timer : Nat)
  /-- Someone forgets rows and checks. -/
  | invalidated
deriving Repr

namespace Monitor

/-- The wording for a table that could not be attached to. -/
def attachText (message : String) : String := "cannot attach to table: " ++ message

/-- The wording for a pass without a table. -/
def noTableText : String := "no table attached"

/-- Whether two tables that may be open are the same one. -/
def sameTable (a b : Option OpenTable) : Bool :=
  a.map (·.serial) == b.map (·.serial)

/-- End the pass in flight, and with it the task. -/
def endPass (t : Nat) (o : TaskOutcome) (m : Monitor) : Monitor :=
  let m := { m with inFlight := false }
  let m := if m.switchPending then { m with switchPending := false }.armTimer else m
  m.finish t o

/-- End a pass that the source failed. The failure is shown if the table is still attached. -/
def failPass (t : Nat) (table : Option OpenTable) (message : String) (m : Monitor) : Monitor :=
  if sameTable m.table table then
    let (failed, m) := m.publish ⟨none, some message⟩
    m.endPass t (if failed then .listenerFailed else .nothing)
  else m.endPass t .nothing

/-- End a pass with an error of the source. -/
def endPassWith (t : Nat) (table : OpenTable) (e : SourceError) (m : Monitor) : Monitor :=
  match e with
  | .failure message => m.failPass t (some table) message
  | .fault f => m.endPass t (.fault f)
  | .unfinished => m.endPass t .unfinished

/-- End a pass with its report. It is shown if the table is still attached. -/
def reportPass (t : Nat) (table : OpenTable) (r : Report) (m : Monitor) : Monitor :=
  if sameTable m.table (some table) then
    let (failed, m) := m.publish ⟨some r, none⟩
    m.endPass t (if failed then .listenerFailed else .report r)
  else m.endPass t (.report r)

/-- Have the columns of a pass take their turns. A pass without columns ends at once. -/
def checkRows (t : Nat) (p : PassRun) (columns : List Column) (rows : List Row) (m : Monitor) :
    Monitor :=
  match Pass.options? m.settings.chunkSize m.settings.messages m.settings.now with
  | none => m.endPass t .noChunk
  | some o =>
    let pass := Pass.start o rows columns
    if columns.isEmpty then
      m.reportPass t p.table (Pass.reportOf rows.length m.settings.timestamp [])
    else
      (m.setPhase t (.passing { p with stage := .checking pass })).emit
        (.columns t columns.length)

/-- The rows that a pass asks for. -/
def rowQuery (m : Monitor) (p : PassRun) (columns : List Column) : RowQuery :=
  ⟨columns, p.viewId, m.settings.pageSize⟩

/-- Put the next question of a reading. -/
def askRows (t : Nat) (p : PassRun) (columns : List Column) (generation : Nat) (r : Reading)
    (m : Monitor) : Monitor :=
  m.ask t (.passing { p with stage := .reading columns generation r })
    (.table p.table (r.call (m.rowQuery p columns)))

/-- Go on with a pass whose columns are known: take the rows that are kept, or read them. -/
def loadRows (t : Nat) (p : PassRun) (columns : List Column) (m : Monitor) : Monitor :=
  match m.session.rows with
  | some rows => m.checkRows t p columns rows
  | none => m.askRows t p columns m.session.generation .start

/-- Make a pass, unless one is in flight. -/
def trigger (t : Nat) (m : Monitor) : Monitor :=
  if m.inFlight then m.finish t .nothing
  else
    let m := { m with inFlight := true, passesStarted := m.passesStarted + 1 }
    match m.table with
    | none => m.failPass t none noTableText
    | some table =>
      m.ask t (.passing ⟨table, m.selection.viewId, .fields⟩) (.table table .fields)

/-- Go on after attaching: with a pass, which is put off if one is in flight after a change of the
selection. -/
def afterAttach (t : Nat) (m : Monitor) : Monitor :=
  if m.kind? t = some .switch && m.inFlight then
    { m with switchPending := true }.finish t .nothing
  else m.trigger t

/-- End a task that could not attach. -/
def failAttach (t : Nat) (e : SourceError) (m : Monitor) : Monitor :=
  match e with
  | .failure message =>
    let (failed, m) := m.publish ⟨none, some (attachText message)⟩
    m.finish t (if failed then .listenerFailed else .nothing)
  | .fault f => m.finish t (.fault f)
  | .unfinished => m.finish t .unfinished

/-- Attach to the table of a selection. -/
def select (t : Nat) (s : Selection) (m : Monitor) : Monitor :=
  let m := { m with selection := s }
  if s.tableId.isTruthy then m.ask t (.opening s.tableId) (.openTable s.tableId)
  else { m with table := none }.afterAttach t

/-- Attach to a table that was opened. -/
def attach (t : Nat) (id : Value) (observable : Bool) (m : Monitor) : Monitor :=
  let table : OpenTable := ⟨m.nextTable, id, observable⟩
  let m := { m with table := some table, nextTable := m.nextTable + 1 }
  let m := if observable then m.subscribeRecords table else m
  m.afterAttach t

/-- Begin to run. A monitor that runs already only tells what it shows. -/
def start (t : Nat) (m : Monitor) : Monitor :=
  if m.running then
    m.finish t ((m.display.report.map TaskOutcome.report).getD .nothing)
  else
    let m := { m with running := true }
    let m :=
      if m.settings.watchesSelection then
        let (s, m) := m.subscribe .selection
        { m with selectionSubscription := s }
      else { m with selectionSubscription := none }
    m.ask t .selecting .selection

/-- Stop running: let go of the timer, the table and all subscriptions, and give up the tasks that
the monitor began itself. -/
def stop (t : Nat) (m : Monitor) : Monitor :=
  let m := ({ m with running := false }.cancelTimer).detach
  let m := match m.selectionSubscription with
    | none => m
    | some s => { m with selectionSubscription := none }.emit (.unsubscribe s)
  let own := (m.tasks.filter (·.kind.isOwn)).map (·.number)
  if own.isEmpty then m.finish t .nothing
  else
    let m := own.foldl (fun m n => m.emit (.cancel n)) m
    (m.setPhase t (.stopping own)).emit (.join t own)

/-- Turn to the selection after it changed. -/
def switch (t : Nat) (m : Monitor) : Monitor :=
  (m.cancelTimer.detach.invalidate).ask t .selecting .selection

/-- Populate records that were added, or go on at once if there is nothing to do. -/
def populate (t : Nat) (ids : List String) (m : Monitor) : Monitor :=
  match m.table with
  | none => m.armTimer.finish t .nothing
  | some table =>
    if ids.isEmpty then m.armTimer.finish t .nothing
    else m.ask t (.adding table ids) (.table table .fields)

/-- Go on after populating. -/
def afterPopulating (t : Nat) (m : Monitor) : Monitor :=
  m.invalidate.armTimer.finish t .nothing

/-- Go on populating. -/
def continuePopulating (t : Nat) (table : OpenTable) (n : Defaults.Next) (m : Monitor) : Monitor :=
  match n with
  | .ends (.finished _) => m.afterPopulating t
  | .ends .noAttempt => m.finish t .noAttempt
  | .ends (.fault f) => m.finish t (.fault f)
  | .continues p =>
    match p.need with
    | .call c => m.ask t (.populating table p) (.table table c)
    | .sleep wait => (m.setPhase t (.populating table p)).emit (.sleep t wait)

/-- The first turn of a task. -/
def begins (t : Nat) (k : TaskKind) (m : Monitor) : Monitor :=
  match k with
  | .start => m.start t
  | .stop => m.stop t
  | .trigger => m.trigger t
  | .elapsed => m.trigger t
  | .switch => m.switch t
  | .added ids => m.populate t ids

/-- A reply in a pass. -/
def passReplied (t : Nat) (p : PassRun) (r : TableReply) (m : Monitor) : Monitor :=
  match p.stage, r with
  | .fields, .fields columns => m.loadRows t p columns
  | .fields, .failed e => m.endPassWith t p.table e
  | .reading columns generation reading, r =>
    match reading.resume (m.rowQuery p columns) r with
    | .ask reading => m.askRows t p columns generation reading
    | .rows rows =>
      { m with session := m.session.keepRows generation rows }.checkRows t p columns rows
    | .failed e => m.endPassWith t p.table e
  | _, _ => m.endPass t (.fault .wrongKind)

/-- A reply while records are populated. -/
def populationReplied (t : Nat) (ph : Phase) (r : TableReply) (m : Monitor) : Monitor :=
  match ph, r with
  | .adding table ids, .fields columns =>
    match Defaults.targets columns with
    | .error f => m.finish t (.fault f)
    | .ok targets => m.continuePopulating t table (Defaults.Population.start targets ids)
  | .adding _ _, .failed (.failure _) => m.afterPopulating t
  | .adding _ _, .failed e => m.finish t (.fault e.asFault)
  | .populating table p, r => m.continuePopulating t table (p.resume m.settings.retry r)
  | _, _ => m.finish t (.fault .wrongKind)

/-- A reply of the source. -/
def replied (t : Nat) (ph : Phase) (r : SourceReply) (m : Monitor) : Monitor :=
  match ph, r with
  | .selecting, .selection s => m.select t s
  | .selecting, .failed e => m.failAttach t e
  | .opening id, .opened observable => m.attach t id observable
  | .opening _, .failed e => m.failAttach t e
  | .passing p, .table r => m.passReplied t p r
  | .passing p, .failed e => m.endPassWith t p.table e
  | .adding table ids, .table r => m.populationReplied t (.adding table ids) r
  | .adding table ids, .failed e => m.populationReplied t (.adding table ids) (.failed e)
  | .populating table p, .table r => m.populationReplied t (.populating table p) r
  | .populating table p, .failed e => m.populationReplied t (.populating table p) (.failed e)
  | _, _ => m

/-- The turn of a column in a pass. -/
def columnTurn (t : Nat) (p : PassRun) (pass : Pass) (i : Nat) (m : Monitor) : Monitor :=
  let turn := pass.turn m.session i
  { m with session := turn.session }.setPhase t (.passing { p with stage := .checking turn.pass })

/-- The end of the columns' turns. -/
def passOver (t : Nat) (p : PassRun) (pass : Pass) (fault : Option Fault) (m : Monitor) : Monitor :=
  match fault, pass.report? m.settings.timestamp with
  | some f, _ => m.endPass t (.fault f)
  | none, some r => m.reportPass t p.table r
  | none, none => m

/-- A task is given up. A pass in flight ends with it. -/
def cancelled (t : Nat) (ph : Phase) (m : Monitor) : Monitor :=
  match ph with
  | .passing _ => m.endPass t .cancelled
  | _ => m.finish t .cancelled

/-- What happens to a task. -/
def taskStep (x : Task) (e : MonitorEvent) (m : Monitor) : Monitor :=
  match e, x.phase with
  | .begins t, .ready => m.begins t x.kind
  | .replied t r, ph => m.replied t ph r
  | .woke t, .populating table p => m.continuePopulating t table p.wake
  | .column t i, .passing ⟨table, view, .checking pass⟩ =>
    m.columnTurn t ⟨table, view, .checking pass⟩ pass i
  | .passOver t fault, .passing ⟨table, view, .checking pass⟩ =>
    m.passOver t ⟨table, view, .checking pass⟩ pass fault
  | .joined t, .stopping others =>
    if others.any fun n => (m.task? n).isSome then m else m.finish t .nothing
  | .cancelled t, ph => m.cancelled t ph
  | _, _ => m

/-- The task that something happens to. -/
def taskOf? : MonitorEvent → Option Nat
  | .begins t => some t
  | .replied t _ => some t
  | .woke t => some t
  | .column t _ => some t
  | .passOver t _ => some t
  | .joined t => some t
  | .cancelled t => some t
  | _ => none

/-- What happens while the monitor runs; nothing comes of it otherwise. -/
def whileRunning (f : Monitor → Monitor) (m : Monitor) : Monitor :=
  if m.running then f m else m

/-- What a monitor does when something happens. -/
def step (m : Monitor) (e : MonitorEvent) : Monitor :=
  match taskOf? e with
  | some t =>
    match m.task? t with
    | some x => m.taskStep x e
    | none => m
  | none =>
    match e with
    | .request k => m.spawn k
    | .recordsAdded ids => m.whileRunning fun m => m.invalidate.spawn (.added ids)
    | .recordsChanged => m.whileRunning fun m => m.invalidate.armTimer
    | .selectionChanged => m.whileRunning (·.spawn .switch)
    | .elapsed timer =>
      if m.timer = some timer then
        { m with timer := none }.whileRunning (·.spawn .elapsed)
      else m
    | .invalidated => m.invalidate
    | _ => m

end Monitor

end TableAudit
