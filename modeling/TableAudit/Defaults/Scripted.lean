import TableAudit.Defaults.Population

/-!
# Populating a scripted table

A table in memory whose failures are laid down beforehand: reads that fail, and the outcomes of
the writes to each cell, writes beyond them succeeding. A value that was written is read back
later. Populating it shows every question and every wait.
-/

namespace TableAudit.Defaults

/-- The place of a cell. -/
structure Place where
  columnId : String
  recordId : String
deriving DecidableEq, Repr

/-- The outcome of a write that is laid down. -/
inductive WriteOutcome
  | accepted
  | refused
  | failed (message : String)
deriving DecidableEq, Repr

/-- A table in memory with its failures to come. -/
structure ScriptedTable where
  cells : List (Place × Value)
  readFailures : List (Place × String)
  writes : List (Place × List WriteOutcome)
deriving Repr

namespace ScriptedTable

/-- Take the next outcome of a write to a cell. -/
def takeOutcome (place : Place) :
    List (Place × List WriteOutcome) → WriteOutcome × List (Place × List WriteOutcome)
  | [] => (.accepted, [])
  | (p, outcomes) :: rest =>
    if p = place then
      match outcomes with
      | [] => (.accepted, (p, []) :: rest)
      | o :: os => (o, (p, os) :: rest)
    else
      let (o, rest) := takeOutcome place rest
      (o, (p, outcomes) :: rest)

/-- What a cell holds. -/
def payload (t : ScriptedTable) (place : Place) : Value :=
  (t.cells.lookup place).getD .null

/-- The reply to a question, and the table after it. -/
def reply (t : ScriptedTable) : TableCall → TableReply × ScriptedTable
  | .cell columnId recordId =>
    let place := ⟨columnId, recordId⟩
    match t.readFailures.lookup place with
    | some message => (.failed (.failure message), t)
    | none => (.cell (t.payload place), t)
  | .setCell columnId recordId value =>
    let place := ⟨columnId, recordId⟩
    let (outcome, writes) := takeOutcome place t.writes
    let t := { t with writes := writes }
    match outcome with
    | .accepted => (.stored true, { t with cells := (place, value) :: t.cells })
    | .refused => (.stored false, t)
    | .failed message => (.failed (.failure message), t)
  | _ => (.failed (.fault .wrongKind), t)

/-- How many outcomes of writes are laid down. -/
def outcomesLeft (t : ScriptedTable) : Nat :=
  t.writes.foldl (fun n w => n + w.2.length) 0

end ScriptedTable

/-- What populating showed: its end, the questions and the waits, each in order. -/
structure Transcript where
  ending : Option Ending
  calls : List TableCall
  waits : List Number
deriving Repr

namespace Transcript

/-- Put a question in front. -/
def addCall (c : TableCall) (t : Transcript) : Transcript :=
  { t with calls := c :: t.calls }

/-- Put a wait in front. -/
def addWait (n : Number) (t : Transcript) : Transcript :=
  { t with waits := n :: t.waits }

end Transcript

namespace Population

/-- Go on against a scripted table for a number of steps. -/
def runFor (policy : RetryPolicy) : Nat → ScriptedTable → Next → Transcript
  | _, _, .ends e => ⟨some e, [], []⟩
  | 0, _, .continues _ => ⟨none, [], []⟩
  | fuel + 1, t, .continues p =>
    match p.need with
    | .call c =>
      let (reply, t) := t.reply c
      (runFor policy fuel t (p.resume policy reply)).addCall c
    | .sleep wait => (runFor policy fuel t p.wake).addWait wait

/-- Populate a scripted table. Every cell takes a read and a write, and every outcome that is laid
down at most one more write and a wait, so the number of steps suffices. -/
def run (policy : RetryPolicy) (t : ScriptedTable) (targets : List Target)
    (recordIds : List String) : Transcript :=
  runFor policy (2 * (spots targets recordIds).length + 2 * t.outcomesLeft + 1) t
    (start targets recordIds)

end Population

end TableAudit.Defaults
