import TableAudit.Cell.Normal
import TableAudit.Defaults.CellValue
import TableAudit.Retry
import TableAudit.Source.Basic

/-!
# Populating defaults

Blank cells of new records are filled with the defaults of their columns, record by record and
column by column. Every cell is read first and written only if it is blank. A write that fails or
is refused is tried again under a policy; reads that fail and writes whose attempts are used up
are listed, and the next cell is turned to.
-/

namespace TableAudit.Defaults

/-- A cell that was not filled, and why. -/
structure WriteFailure where
  columnName : String
  recordId : String
  reason : String
deriving DecidableEq, Repr

/-- A cell that may have to be filled. -/
structure Spot where
  recordId : String
  target : Target
deriving Repr

/-- What is being done about the first of the remaining cells. -/
inductive Phase
  | reading
  | writing (r : Retry)
  /-- A wait before the next attempt. -/
  | waiting (wait : Number) (r : Retry)
deriving Repr

/-- How far populating has come: the cell in hand, the cells after it, and the failures so far. -/
structure Population where
  spot : Spot
  phase : Phase
  rest : List Spot
  failures : List WriteFailure
deriving Repr

/-- How populating ends. -/
inductive Ending
  /-- Every cell was turned to. -/
  | finished (failures : List WriteFailure)
  /-- The policy allows no attempt to write. -/
  | noAttempt
  | fault (f : Fault)
deriving Repr

/-- What follows: more to do, or the end. -/
inductive Next
  | continues (p : Population)
  | ends (e : Ending)
deriving Repr

/-- What populating waits for: a reply of the table, or that time passes. -/
inductive Need
  | call (c : TableCall)
  | sleep (wait : Number)
deriving Repr

namespace Population

/-- All cells in order: record by record, and column by column within a record. -/
def spots (targets : List Target) (recordIds : List String) : List Spot :=
  recordIds.flatMap fun id => targets.map fun t => ⟨id, t⟩

/-- Turn to the first of some cells. -/
def turn (failures : List WriteFailure) : List Spot → Next
  | [] => .ends (.finished failures)
  | s :: rest => .continues ⟨s, .reading, rest, failures⟩

/-- Begin with the targets of columns. -/
def start (targets : List Target) (recordIds : List String) : Next :=
  turn [] (spots targets recordIds)

/-- What is waited for. -/
def need (p : Population) : Need :=
  match p.phase with
  | .reading => .call (.cell p.spot.target.column.id p.spot.recordId)
  | .writing _ => .call (.setCell p.spot.target.column.id p.spot.recordId p.spot.target.value)
  | .waiting wait _ => .sleep wait

/-- Turn to the next cell. -/
def next (p : Population) : Next :=
  turn p.failures p.rest

/-- Note a failure and turn to the next cell. -/
def fail (p : Population) (reason : String) : Next :=
  turn (p.failures ++ [⟨p.spot.target.column.name, p.spot.recordId, reason⟩]) p.rest

/-- The wording for a write that the table refuses. -/
def refusedText : String := "set_cell_value returned false"

/-- What follows a payload that was read: a blank cell is written. -/
def afterRead (policy : RetryPolicy) (p : Population) (payload : Value) : Next :=
  match Cell.writtenText p.spot.target.column.type payload with
  | .error f => .ends (.fault f)
  | .ok text =>
    if Text.isBlankText text then
      match Retry.begin? policy with
      | none => .ends .noAttempt
      | some r => .continues { p with phase := .writing r }
    else p.next

/-- What follows a write that failed. -/
def afterFailure (policy : RetryPolicy) (p : Population) (r : Retry) (reason : String) : Next :=
  match r.afterFailure policy with
  | .giveUp => p.fail reason
  | .again wait r => .continues { p with phase := .waiting wait r }

/-- What follows a reply of the table. A reply to another question is a fault. -/
def resume (policy : RetryPolicy) (p : Population) (reply : TableReply) : Next :=
  match p.phase, reply with
  | .reading, .cell payload => p.afterRead policy payload
  | .reading, .failed (.failure message) => p.fail message
  | .reading, .failed e => .ends (.fault e.asFault)
  | .writing _, .stored true => p.next
  | .writing r, .stored false => p.afterFailure policy r refusedText
  | .writing r, .failed e => p.afterFailure policy r e.text
  | _, _ => .ends (.fault .wrongKind)

/-- What follows a wait: the next attempt. -/
def wake (p : Population) : Next :=
  match p.phase with
  | .waiting _ r => .continues { p with phase := .writing r }
  | _ => .continues p

end Population

end TableAudit.Defaults
