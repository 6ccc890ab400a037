import TableAudit.Monitor.Step

/-!
# Acts

A turn of a monitor is a short sequence of acts. An act has a change of the monitor, effects that
it leaves in the outbox, and a condition under which it may happen. The acts of a run, one after
the other, are its history; a course is a history each of whose acts was admissible.
-/

namespace TableAudit

/-- What a monitor does in the course of a turn. A number is that of the task whose turn it is. -/
inductive Act
  /-- A task comes into being; its first turn is later. -/
  | spawns (k : TaskKind)
  /-- Rows and checks are forgotten. -/
  | forgets
  /-- Records were modified or deleted. -/
  | changes
  /-- The timer has run down. -/
  | elapses
  /-- The timer is started afresh, if the monitor runs. -/
  | arms
  /-- The monitor begins to run. -/
  | starts (t : Nat)
  /-- The monitor stops running, and lets go of its table and its subscriptions. -/
  | halts (t : Nat)
  /-- The table and its subscriptions are let go of, and the selection is asked for. -/
  | switches (t : Nat)
  | selects (t : Nat) (s : Selection)
  | attaches (t : Nat) (table : OpenTable)
  /-- The source failed while the monitor attached. -/
  | givesUp (t : Nat) (e : SourceError)
  /-- The pass after a switch is put off, because one is in flight. -/
  | postpones (t : Nat)
  /-- A trigger is dropped, because a pass is in flight. -/
  | drops (t : Nat)
  /-- A trigger finds no table. -/
  | lacks (t : Nat)
  /-- A trigger begins a pass. -/
  | serves (t : Nat) (table : OpenTable) (view : Value)
  /-- A pass begins to read rows. -/
  | loads (t : Nat) (p : PassRun) (columns : List Column)
  /-- A pass goes on reading rows. -/
  | pages (t : Nat) (p : PassRun) (columns : List Column) (generation : Nat) (r : Reading)
  /-- A pass takes the rows that are kept. -/
  | takes (t : Nat) (p : PassRun) (columns : List Column) (rows : List Row)
  /-- A pass has read its rows. -/
  | reads (t : Nat) (p : PassRun) (columns : List Column) (generation : Nat) (rows : List Row)
  /-- The columns of a pass are to take their turns. -/
  | announces (t count : Nat)
  /-- A column of a pass has a turn. -/
  | turns (t : Nat) (p : PassRun) (pass : Pass) (place : Nat)
  /-- A failure is shown. -/
  | shows (message : String)
  /-- The report of a pass on rows is shown. -/
  | publishes (t : Nat) (table : OpenTable) (rows : List Row) (r : Report)
  /-- A pass ends, and with it the task. -/
  | closes (t : Nat) (o : TaskOutcome)
  /-- Records that were added are worked on. -/
  | populates (t : Nat) (ph : Phase) (e : Effect)
  /-- A task without a pass ends. -/
  | ends (t : Nat) (o : TaskOutcome)
  /-- A task without a pass is given up. -/
  | abandons (t : Nat)
deriving Repr

namespace Monitor

/-- The tasks after one of them was given a phase. -/
def withPhase (t : Nat) (ph : Phase) (xs : List Task) : List Task :=
  xs.map fun x => if x.number = t then { x with phase := ph } else x

/-- The tasks after one of them ended. -/
def without (t : Nat) (xs : List Task) : List Task :=
  xs.filter (·.number ≠ t)

/-- The numbers of the tasks that the monitor began itself. -/
def ownTasks (m : Monitor) : List Nat :=
  (m.tasks.filter (·.kind.isOwn)).map (·.number)

/-- A pass that holds its rows and has not checked them yet. -/
def heldPass (m : Monitor) (p : PassRun) (columns : List Column) (rows : List Row) : PassRun :=
  { p with stage := .checking (Pass.start
      ⟨Pass.wholeSize? m.settings.chunkSize, m.settings.messages, m.settings.now⟩ rows columns) }

/-- What is left in the outbox when the timer is stopped. -/
def disarming (m : Monitor) : List Effect :=
  (m.timer.map Effect.disarm).toList

/-- What is left in the outbox when the timer is started afresh. -/
def arming (m : Monitor) : List Effect :=
  if m.running then m.disarming ++ [.arm m.nextTimer m.settings.debounce] else []

/-- What is left in the outbox when the table is let go of. -/
def detaching (m : Monitor) : List Effect :=
  m.tableSubscriptions.map Effect.unsubscribe

/-- The subscriptions to the records of a table, by the number of the first. -/
def recordSubscriptions (n : Nat) (table : OpenTable) : List Subscription :=
  [⟨n, .records table .added⟩, ⟨n + 1, .records table .modified⟩,
    ⟨n + 2, .records table .deleted⟩]

/-- The timer after it was started afresh. -/
def armed (m : Monitor) : Option Nat :=
  if m.running then some m.nextTimer else m.timer

/-- The number of the next timer after one was started. -/
def armedNext (m : Monitor) : Nat :=
  if m.running then m.nextTimer + 1 else m.nextTimer

/-- How a task ends after something was shown. -/
def shownOutcome (m : Monitor) (o : TaskOutcome) : TaskOutcome :=
  match m.settings.listener with
  | none => o
  | some failing => if failing.contains (m.published + 1) then .listenerFailed else o

/-- How often the listener was called, after one more display. -/
def publishedNext (m : Monitor) : Nat :=
  if m.settings.listener.isSome then m.published + 1 else m.published

/-- What is left in the outbox when something is shown. -/
def showing (m : Monitor) (d : Display) : List Effect :=
  if m.settings.listener.isSome then [.publish d] else []

end Monitor

namespace Act

open Monitor

/-- What an act leaves in the outbox. -/
def effects : Act → Monitor → List Effect
  | .spawns _, m => [.spawn m.nextTask]
  | .forgets, _ => []
  | .changes, m => m.arming
  | .elapses, m => if m.running then [.spawn m.nextTask] else []
  | .arms, m => m.arming
  | .starts t, m =>
    (if m.settings.watchesSelection then [.subscribe ⟨m.nextSubscription, .selection⟩] else []) ++
      [.ask t .selection]
  | .halts t, m =>
    m.disarming ++ m.detaching ++ (m.selectionSubscription.map Effect.unsubscribe).toList ++
      if m.ownTasks.isEmpty then [.ended t .nothing]
      else m.ownTasks.map Effect.cancel ++ [.join t m.ownTasks]
  | .switches t, m => m.disarming ++ m.detaching ++ [.ask t .selection]
  | .selects t s, _ => if s.tableId.isTruthy then [.ask t (.openTable s.tableId)] else []
  | .attaches _ table, m =>
    if table.observable then (recordSubscriptions m.nextSubscription table).map Effect.subscribe
    else []
  | .givesUp t e, m =>
    match e with
    | .failure message =>
      let d : Display := ⟨none, some (attachText message)⟩
      m.showing d ++ [.ended t (m.shownOutcome .nothing)]
    | .fault f => [.ended t (.fault f)]
    | .unfinished => [.ended t .unfinished]
  | .postpones t, _ => [.ended t .nothing]
  | .drops t, _ => [.ended t .nothing]
  | .lacks t, m =>
    let d : Display := ⟨none, some noTableText⟩
    m.showing d ++ (if m.switchPending then m.arming else []) ++
      [.ended t (m.shownOutcome .nothing)]
  | .serves t table _, _ => [.ask t (.table table .fields)]
  | .loads t p columns, m => [.ask t (.table p.table (Reading.start.call (m.rowQuery p columns)))]
  | .pages t p columns _ r, m => [.ask t (.table p.table (r.call (m.rowQuery p columns)))]
  | .takes .., _ => []
  | .reads .., _ => []
  | .announces t count, _ => [.columns t count]
  | .turns .., _ => []
  | .shows message, m => m.showing ⟨none, some message⟩
  | .publishes _ _ _ r, m => m.showing ⟨some r, none⟩
  | .closes t o, m => (if m.switchPending then m.arming else []) ++ [.ended t o]
  | .populates _ _ e, _ => [e]
  | .ends t o, _ => [.ended t o]
  | .abandons t, _ => [.ended t .cancelled]

/-- What an act changes, the outbox apart. -/
def change : Act → Monitor → Monitor
  | .spawns k, m =>
    { m with tasks := m.tasks ++ [⟨m.nextTask, k, .ready⟩], nextTask := m.nextTask + 1 }
  | .forgets, m => { m with session := m.session.invalidate }
  | .changes, m =>
    { m with session := m.session.invalidate, timer := m.armed, nextTimer := m.armedNext }
  | .elapses, m =>
    if m.running then
      { m with
        timer := none
        tasks := m.tasks ++ [⟨m.nextTask, .elapsed, .ready⟩], nextTask := m.nextTask + 1 }
    else { m with timer := none }
  | .arms, m => { m with timer := m.armed, nextTimer := m.armedNext }
  | .starts t, m =>
    { m with
      running := true
      selectionSubscription :=
        if m.settings.watchesSelection && m.settings.unsubscribes then
          some ⟨m.nextSubscription, .selection⟩
        else none
      nextSubscription :=
        if m.settings.watchesSelection then m.nextSubscription + 1 else m.nextSubscription
      tasks := withPhase t .selecting m.tasks }
  | .halts t, m =>
    { m with
      running := false, timer := none, tableSubscriptions := [], table := none
      selectionSubscription := none
      tasks :=
        if m.ownTasks.isEmpty then without t m.tasks
        else withPhase t (.stopping m.ownTasks) m.tasks }
  | .switches t, m =>
    { m with
      timer := none, tableSubscriptions := [], table := none
      session := m.session.invalidate
      tasks := withPhase t .selecting m.tasks }
  | .selects t s, m =>
    { m with
      selection := s
      table := if s.tableId.isTruthy then m.table else none
      tasks := withPhase t (.opening s.tableId) m.tasks }
  | .attaches _ table, m =>
    { m with
      table := some table, nextTable := m.nextTable + 1
      tableSubscriptions :=
        if table.observable then
          if m.settings.unsubscribes then recordSubscriptions m.nextSubscription table else []
        else m.tableSubscriptions
      nextSubscription :=
        if table.observable then m.nextSubscription + 3 else m.nextSubscription }
  | .givesUp t e, m =>
    match e with
    | .failure message =>
      { m with
        display := ⟨none, some (attachText message)⟩
        published := m.publishedNext
        tasks := without t m.tasks }
    | _ => { m with tasks := without t m.tasks }
  | .postpones t, m => { m with switchPending := true, tasks := without t m.tasks }
  | .drops t, m => { m with tasks := without t m.tasks }
  | .lacks t, m =>
    { m with
      passesStarted := m.passesStarted + 1
      display := ⟨none, some noTableText⟩
      published := m.publishedNext
      switchPending := false
      timer := if m.switchPending then m.armed else m.timer
      nextTimer := if m.switchPending then m.armedNext else m.nextTimer
      tasks := without t m.tasks }
  | .serves t table view, m =>
    { m with
      inFlight := true, passesStarted := m.passesStarted + 1
      tasks := withPhase t (.passing ⟨table, view, .fields⟩) m.tasks }
  | .loads t p columns, m =>
    { m with
      tasks := withPhase t
        (.passing { p with stage := .reading columns m.session.generation .start }) m.tasks }
  | .pages t p columns generation r, m =>
    { m with
      tasks := withPhase t
        (.passing { p with stage := .reading columns generation r }) m.tasks }
  | .takes t p columns rows, m =>
    { m with tasks := withPhase t (.passing (m.heldPass p columns rows)) m.tasks }
  | .reads t p columns generation rows, m =>
    { m with
      session := m.session.keepRows generation rows
      tasks := withPhase t (.passing (m.heldPass p columns rows)) m.tasks }
  | .announces _ _, m => m
  | .turns t p pass i, m =>
    { m with
      session := (pass.turn m.session i).session
      tasks := withPhase t
        (.passing { p with stage := .checking (pass.turn m.session i).pass }) m.tasks }
  | .shows message, m =>
    { m with display := ⟨none, some message⟩, published := m.publishedNext }
  | .publishes _ _ _ r, m => { m with display := ⟨some r, none⟩, published := m.publishedNext }
  | .closes t _, m =>
    { m with
      inFlight := false, switchPending := false
      timer := if m.switchPending then m.armed else m.timer
      nextTimer := if m.switchPending then m.armedNext else m.nextTimer
      tasks := without t m.tasks }
  | .populates t ph _, m => { m with tasks := withPhase t ph m.tasks }
  | .ends t _, m => { m with tasks := without t m.tasks }
  | .abandons t, m => { m with tasks := without t m.tasks }

/-- The monitor after an act. -/
def perform (a : Act) (m : Monitor) : Monitor :=
  { a.change m with outbox := m.outbox ++ a.effects m }

end Act

namespace Monitor

/-- Whether a task of a kind is in a phase. -/
def At (xs : List Task) (t : Nat) (k : TaskKind) (ph : Phase) : Prop :=
  xs.find? (·.number = t) = some ⟨t, k, ph⟩

/-- Whether a task makes a pass. -/
def Passing (xs : List Task) (t : Nat) (p : PassRun) : Prop :=
  ∃ k, At xs t k (.passing p)

end Monitor

namespace Phase

/-- Whether a task in this phase works on records that were added. -/
def isPopulating : Phase → Bool
  | adding _ _ => true
  | populating _ _ => true
  | _ => false

/-- Whether a task in this phase attaches to a table. -/
def isAttaching : Phase → Bool
  | selecting => true
  | opening _ => true
  | _ => false

/-- Whether a task in this phase makes a pass. -/
def isPassing : Phase → Bool
  | passing _ => true
  | _ => false

end Phase

namespace Act

open Monitor

/-- The task of which the attaching is complete, with a table or without one. -/
def completer? : Act → Option Nat
  | .attaches t _ => some t
  | .selects t s => if s.tableId.isTruthy then none else some t
  | _ => none

/-- Whether a task has come to its trigger: it is for nothing else, or it has just attached. -/
def Due (past : List Act) (m : Monitor) (t : Nat) : Prop :=
  (∃ k, At m.tasks t k .ready ∧ (k = .trigger ∨ k = .elapsed)) ∨
    ∃ k id, At m.tasks t k (.opening id) ∧ ∃ a, past.getLast? = some a ∧ a.completer? = some t

/-- When an act may happen, after the acts that are past. -/
def Admissible (past : List Act) (m : Monitor) : Act → Prop
  | .spawns _ => True
  | .forgets => True
  | .changes => m.running = true
  | .elapses => True
  | .arms => True
  | .starts t => m.running = false ∧ At m.tasks t .start .ready
  | .halts t => At m.tasks t .stop .ready
  | .switches t => At m.tasks t .switch .ready
  | .selects t _ => ∃ k, At m.tasks t k .selecting
  | .attaches t table => table.serial = m.nextTable ∧ ∃ k, At m.tasks t k (.opening table.id)
  | .givesUp t _ => ∃ k ph, At m.tasks t k ph ∧ ph.isAttaching = true
  | .postpones t => m.kind? t = some .switch ∧ m.inFlight = true ∧ Due past m t
  | .drops t => m.inFlight = true ∧ Due past m t
  | .lacks t => m.inFlight = false ∧ m.table = none ∧ Due past m t
  | .serves t table view =>
    m.inFlight = false ∧ m.table = some table ∧ view = m.selection.viewId ∧ Due past m t
  | .loads t p _ => m.session.rows = none ∧ p.stage = .fields ∧ Passing m.tasks t p
  | .pages t p columns generation _ =>
    ∃ r, p.stage = .reading columns generation r ∧ Passing m.tasks t p
  | .takes t p _ rows => m.session.rows = some rows ∧ p.stage = .fields ∧ Passing m.tasks t p
  | .reads t p columns generation rows =>
    ∃ r reply, p.stage = .reading columns generation r ∧ Passing m.tasks t p ∧
      r.resume (m.rowQuery p columns) reply = .rows rows
  | .announces _ _ => True
  | .turns t p pass _ => p.stage = .checking pass ∧ Passing m.tasks t p
  | .shows _ => True
  | .publishes t table rows r =>
    sameTable m.table (some table) = true ∧
      ∃ p pass, p.table = table ∧ p.stage = .checking pass ∧ Passing m.tasks t p ∧
        pass.rows = rows ∧ pass.report? m.settings.timestamp = some r
  | .closes t o =>
    ∃ p, Passing m.tasks t p ∧ ∀ r, o = .report r → sameTable m.table (some p.table) = true →
      ∃ rows, past.getLast? = some (.publishes t p.table rows r)
  | .populates t ph e =>
    ph.isPopulating = true ∧ ((∃ c, e = .ask t c) ∨ ∃ w, e = .sleep t w) ∧
      ∃ k ph', At m.tasks t k ph' ∧
        (ph'.isPopulating = true ∨ ph' = .ready ∧ ∃ ids, k = .added ids)
  | .ends t _ =>
    ∃ k ph, At m.tasks t k ph ∧
      (ph.isPopulating = true ∨ (∃ others, ph = .stopping others) ∨
        ph = .ready ∧ (k = .start ∨ ∃ ids, k = .added ids))
  | .abandons t => ∃ k ph, At m.tasks t k ph ∧ ph.isPassing = false

end Act

namespace Monitor

/-- A history of admissible acts from the beginning, and the monitor that it leads to. -/
inductive Course (s : MonitorSettings) : List Act → Monitor → Prop
  | initial : Course s [] (Monitor.initial s)
  | act {past : List Act} {m : Monitor} (a : Act) :
      Course s past m → a.Admissible past m → Course s (past ++ [a]) (a.perform m)

end Monitor

end TableAudit

/-!
## Turns as acts

The acts of every turn, in the order in which they happen. A turn of a task depends on what the
task is for and on its phase; other turns only begin tasks, forget rows or start the timer.
-/

namespace TableAudit

namespace Monitor

/-- A trigger. -/
def triggerActs (t : Nat) (m : Monitor) : List Act :=
  if m.inFlight then [.drops t]
  else
    match m.table with
    | none => [.lacks t]
    | some table => [.serves t table m.selection.viewId]

/-- What follows attaching. -/
def afterAttachActs (t : Nat) (m : Monitor) : List Act :=
  if m.kind? t = some .switch && m.inFlight then [.postpones t] else m.triggerActs t

/-- The selection is known. -/
def selectActs (t : Nat) (s : Selection) (m : Monitor) : List Act :=
  .selects t s ::
    if s.tableId.isTruthy then [] else ((Act.selects t s).perform m).afterAttachActs t

/-- The table is open. -/
def attachActs (t : Nat) (id : Value) (observable : Bool) (m : Monitor) : List Act :=
  let a : Act := .attaches t ⟨m.nextTable, id, observable⟩
  a :: (a.perform m).afterAttachActs t

/-- A pass ends with a failure of the source. -/
def failPassActs (t : Nat) (table : OpenTable) (message : String) (m : Monitor) : List Act :=
  if sameTable m.table (some table) then
    [.shows message, .closes t (m.shownOutcome .nothing)]
  else [.closes t .nothing]

/-- A pass ends with an error of the source. -/
def endPassActs (t : Nat) (table : OpenTable) (e : SourceError) (m : Monitor) : List Act :=
  match e with
  | .failure message => m.failPassActs t table message
  | .fault f => [.closes t (.fault f)]
  | .unfinished => [.closes t .unfinished]

/-- A pass ends with its report. -/
def reportActs (t : Nat) (table : OpenTable) (rows : List Row) (r : Report) (m : Monitor) :
    List Act :=
  if sameTable m.table (some table) then
    [.publishes t table rows r, .closes t (m.shownOutcome (.report r))]
  else [.closes t (.report r)]

/-- A pass has its rows. -/
def checkActs (t : Nat) (p : PassRun) (columns : List Column) (rows : List Row) (m : Monitor) :
    List Act :=
  match Pass.options? m.settings.chunkSize m.settings.messages m.settings.now with
  | none => [.closes t .noChunk]
  | some _ =>
    if columns.isEmpty then
      m.reportActs t p.table rows (Pass.reportOf rows.length m.settings.timestamp [])
    else [.announces t columns.length]

/-- A pass has its columns. -/
def loadActs (t : Nat) (p : PassRun) (columns : List Column) (m : Monitor) : List Act :=
  match m.session.rows with
  | some rows => .takes t p columns rows :: m.checkActs t p columns rows
  | none => [.loads t p columns]

/-- A reply in a pass. -/
def passActs (t : Nat) (p : PassRun) (r : TableReply) (m : Monitor) : List Act :=
  match p.stage, r with
  | .fields, .fields columns => m.loadActs t p columns
  | .fields, .failed e => m.endPassActs t p.table e
  | .reading columns generation reading, r =>
    match reading.resume (m.rowQuery p columns) r with
    | .ask reading => [.pages t p columns generation reading]
    | .rows rows => .reads t p columns generation rows :: m.checkActs t p columns rows
    | .failed e => m.endPassActs t p.table e
  | _, _ => [.closes t (.fault .wrongKind)]

/-- Populating goes on or ends. -/
def continueActs (t : Nat) (table : OpenTable) (n : Defaults.Next) : List Act :=
  match n with
  | .ends (.finished _) => [.forgets, .arms, .ends t .nothing]
  | .ends .noAttempt => [.ends t .noAttempt]
  | .ends (.fault f) => [.ends t (.fault f)]
  | .continues p =>
    match p.need with
    | .call c => [.populates t (.populating table p) (.ask t (.table table c))]
    | .sleep wait => [.populates t (.populating table p) (.sleep t wait)]

/-- A reply while records are populated. -/
def populationActs (t : Nat) (ph : Phase) (r : TableReply) (m : Monitor) : List Act :=
  match ph, r with
  | .adding table ids, .fields columns =>
    match Defaults.targets columns with
    | .error f => [.ends t (.fault f)]
    | .ok targets => continueActs t table (Defaults.Population.start targets ids)
  | .adding _ _, .failed (.failure _) => [.forgets, .arms, .ends t .nothing]
  | .adding _ _, .failed e => [.ends t (.fault e.asFault)]
  | .populating table p, r => continueActs t table (p.resume m.settings.retry r)
  | _, _ => [.ends t (.fault .wrongKind)]

/-- Records that were added are turned to. -/
def populateActs (t : Nat) (ids : List String) (m : Monitor) : List Act :=
  match m.table with
  | none => [.arms, .ends t .nothing]
  | some table =>
    if ids.isEmpty then [.arms, .ends t .nothing]
    else [.populates t (.adding table ids) (.ask t (.table table .fields))]

/-- The first turn of a task. -/
def beginActs (t : Nat) (k : TaskKind) (m : Monitor) : List Act :=
  match k with
  | .start =>
    if m.running then [.ends t ((m.display.report.map TaskOutcome.report).getD .nothing)]
    else [.starts t]
  | .stop => [.halts t]
  | .trigger => m.triggerActs t
  | .elapsed => m.triggerActs t
  | .switch => [.switches t]
  | .added ids => m.populateActs t ids

/-- A reply of the source. -/
def replyActs (t : Nat) (ph : Phase) (r : SourceReply) (m : Monitor) : List Act :=
  match ph, r with
  | .selecting, .selection s => m.selectActs t s
  | .selecting, .failed e => [.givesUp t e]
  | .opening id, .opened observable => m.attachActs t id observable
  | .opening _, .failed e => [.givesUp t e]
  | .passing p, .table r => m.passActs t p r
  | .passing p, .failed e => m.endPassActs t p.table e
  | .adding table ids, .table r => m.populationActs t (.adding table ids) r
  | .adding table ids, .failed e => m.populationActs t (.adding table ids) (.failed e)
  | .populating table p, .table r => m.populationActs t (.populating table p) r
  | .populating table p, .failed e => m.populationActs t (.populating table p) (.failed e)
  | _, _ => []

/-- The columns of a pass are done. -/
def passOverActs (t : Nat) (p : PassRun) (pass : Pass) (fault : Option Fault) (m : Monitor) :
    List Act :=
  match fault, pass.report? m.settings.timestamp with
  | some f, _ => [.closes t (.fault f)]
  | none, some r => m.reportActs t p.table pass.rows r
  | none, none => []

/-- A task is given up. -/
def cancelActs (t : Nat) (ph : Phase) : List Act :=
  match ph with
  | .passing _ => [.closes t .cancelled]
  | _ => [.abandons t]

/-- Something happens to a task. -/
def taskActs (x : Task) (e : MonitorEvent) (m : Monitor) : List Act :=
  match e, x.phase with
  | .begins t, .ready => m.beginActs t x.kind
  | .replied t r, ph => m.replyActs t ph r
  | .woke t, .populating table p => continueActs t table p.wake
  | .column t i, .passing ⟨table, view, .checking pass⟩ =>
    [.turns t ⟨table, view, .checking pass⟩ pass i]
  | .passOver t fault, .passing ⟨table, view, .checking pass⟩ =>
    m.passOverActs t ⟨table, view, .checking pass⟩ pass fault
  | .joined t, .stopping others =>
    if others.any fun n => (m.task? n).isSome then [] else [.ends t .nothing]
  | .cancelled t, ph => cancelActs t ph
  | _, _ => []

/-- The acts of a turn. -/
def turn (m : Monitor) (e : MonitorEvent) : List Act :=
  match taskOf? e with
  | some t =>
    match m.task? t with
    | some x => m.taskActs x e
    | none => []
  | none =>
    match e with
    | .request k => [.spawns k]
    | .recordsAdded ids => if m.running then [.forgets, .spawns (.added ids)] else []
    | .recordsChanged => if m.running then [.changes] else []
    | .selectionChanged => if m.running then [.spawns .switch] else []
    | .elapsed timer => if m.timer = some timer then [.elapses] else []
    | .invalidated => [.forgets]
    | _ => []

end Monitor

end TableAudit
