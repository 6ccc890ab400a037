import TableAudit.Pass.Basic

/-!
# Taking turns

The columns of a pass take turns in the order of a queue: every column has its first turn, and one
that is not finished goes to the end. A column that is finished announces itself at the end of the
queue; after the last announcement, or the first of a column that failed, the pass is over. What
is still queued then is of no interest to it.
-/

namespace TableAudit

/-- A place in the queue. -/
inductive PassJob
  /-- The turn of a column. -/
  | turn (i : Nat)
  /-- The announcement that a column is finished. -/
  | settled (i : Nat)
  /-- The end of the pass. -/
  | over
deriving DecidableEq, Repr

/-- A pass with its queue. -/
structure PassSchedule where
  pass : Pass
  session : Session
  queue : List PassJob
  /-- How many columns have announced themselves. -/
  settled : Nat
  /-- The fault of the first column that announced one. -/
  fault : Option Fault
  isOver : Bool
  lines : List Log.Line
deriving Repr

namespace PassSchedule

/-- The queue of a pass before any turn. A pass without columns is over at once. -/
def start (p : Pass) (s : Session) : PassSchedule :=
  ⟨p, s, (List.range p.runs.length).map .turn, 0, none, p.runs.isEmpty, []⟩

/-- Whether the column at a place has turns left. -/
def isOpenAt (p : Pass) (i : Nat) : Bool :=
  (p.runs[i]?).any ColumnRun.isOpen

/-- The fault with which the column at a place failed. -/
def faultAt? (p : Pass) (i : Nat) : Option Fault :=
  match p.runs[i]? with
  | some (.failed f) => some f
  | _ => none

/-- Do a job. -/
def job (q : PassSchedule) : PassJob → PassSchedule
  | .turn i =>
    let t := q.pass.turn q.session i
    let next := if isOpenAt t.pass i then PassJob.turn i else .settled i
    { q with
      pass := t.pass
      session := t.session
      queue := q.queue ++ [next]
      lines := q.lines ++ t.lines }
  | .settled i =>
    if q.fault.isSome then q
    else
      match faultAt? q.pass i with
      | some f => { q with fault := some f, queue := q.queue ++ [.over] }
      | none =>
        let settled := q.settled + 1
        let queue := if settled = q.pass.runs.length then q.queue ++ [.over] else q.queue
        { q with settled := settled, queue := queue }
  | .over => { q with isOver := true }

/-- Do the jobs of the queue until the pass is over, at most a number of them. -/
def runFor : Nat → PassSchedule → PassSchedule
  | 0, q => q
  | fuel + 1, q =>
    if q.isOver then q
    else
      match q.queue with
      | [] => q
      | j :: rest => runFor fuel ({ q with queue := rest }.job j)

/-- How many jobs a pass has at most: every column has a turn for every row, one more, and an
announcement. -/
def jobBound (p : Pass) : Nat :=
  p.runs.length * (p.rows.length + 3) + 1

/-- Do a pass. -/
def run (p : Pass) (s : Session) : PassSchedule :=
  runFor (jobBound p) (start p s)

/-- The report of a pass that is over, or the fault that ended it. -/
def result (q : PassSchedule) (timestamp : String) : Except Fault (Option Report) :=
  match q.fault with
  | some f => .error f
  | none => .ok (q.pass.report? timestamp)

end PassSchedule

end TableAudit
