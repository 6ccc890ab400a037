import TableAudit.Column.RuleText
import TableAudit.Log.Logger
import TableAudit.Report.Aggregate
import TableAudit.Report.Basic
import TableAudit.Session.Basic

/-!
# One column of a pass

A column of a pass is worked on in turns. The first turn finds the rule and makes the check, or
ends the column without a rule or with an issue; then every turn puts one chunk of rows to the
check. The turn after the last chunk ends the column. Between turns other columns have theirs.
-/

namespace TableAudit

/-- How a pass is done. -/
structure PassOptions where
  /-- How many rows are checked in one turn, if that is a count. -/
  chunkSize : Option Nat
  messages : Messages
  now : Calendar.Moment
deriving Repr

/-- How many rows are checked in one turn where nothing else is asked for. -/
def PassOptions.usualChunkSize : Number := .int 1000

/-- The cell of a row that is to be checked. -/
structure Entry where
  rowNumber : Nat
  recordId : String
  text : String
deriving DecidableEq, Repr

/-- What came of a column. -/
structure ColumnOutcome where
  stat : ColumnStat
  failures : Option ColumnFailures
  issues : List Issue
deriving Repr

/-- A column whose rows are being checked. -/
structure Checking where
  name : String
  check : Check
  index : ValueIndex
  /-- How many rows there are. -/
  total : Nat
  pending : List Entry
  failures : List Failure
  chunks : Nat
deriving Repr

/-- How far a column has come. -/
inductive ColumnRun
  | waiting (c : Column)
  | checking (w : Checking)
  | ended (o : ColumnOutcome)
  | failed (f : Fault)
deriving Repr

namespace ColumnRun

/-- Whether the column has turns left. -/
def isOpen : ColumnRun → Bool
  | waiting _ => true
  | checking _ => true
  | _ => false

/-- The outcome of a column without checks. -/
def unchecked (name : String) (status : ColumnStatus) (issues : List Issue) : ColumnRun :=
  .ended ⟨⟨name, status, 0, 0, 0⟩, none, issues⟩

/-- The cells of a column in the rows, by the places of the rows. -/
def entries (columnId : String) (rows : List Row) : List Entry :=
  (rows.zipIdx 1).map fun (r, n) => ⟨n, r.recordId, r.text columnId⟩

/-- What is wrong with the cells of a chunk. -/
def checkChunk (check : Check) : List Entry → Except Fault (List Failure)
  | [] => .ok []
  | e :: es => do
    let errors ← check.run (.text e.text)
    let rest ← checkChunk check es
    .ok (if errors.isEmpty then rest else ⟨e.rowNumber, e.recordId, e.text, errors⟩ :: rest)

/-- The outcome of a column whose rows are all checked. -/
def outcome (w : Checking) : ColumnOutcome :=
  ⟨⟨w.name, .validated, w.total, w.failures.length, w.chunks⟩,
    some ⟨w.name, w.index, w.failures⟩, []⟩

/-- The line that says that a column is done. -/
def doneLine (w : Checking) : Log.Line :=
  ⟨Log.debug, "column '" ++ w.name ++ "' done violations=" ++ toString w.failures.length⟩

/-- Check the next chunk, or end the column after the last one. -/
def advanceBy (size : Nat) (w : Checking) : ColumnRun × List Log.Line :=
  if w.pending.isEmpty then (.ended (outcome w), [doneLine w])
  else
    match checkChunk w.check (w.pending.take size) with
    | .error f => (.failed f, [])
    | .ok failures =>
      (.checking { w with
        pending := w.pending.drop size
        failures := w.failures ++ failures
        chunks := w.chunks + 1 }, [])

/-- Go on with a column. Without a count for its chunks it has none, not even an empty one. -/
def advance (chunkSize : Option Nat) (w : Checking) : ColumnRun × List Log.Line :=
  match chunkSize with
  | none => (.failed .wrongKind, [])
  | some size => advanceBy size w

/-- The wording for a rule that cannot be used. -/
def badRuleText (name : String) (m : Rule.Mistake) : String :=
  "invalid validator rule for column '" ++ name ++ "': " ++ m.text

/-- The line that announces a column. -/
def startLine (name rule : String) (rows : Nat) : Log.Line :=
  ⟨Log.debug, "column '" ++ name ++ "' rule=" ++ rule ++ " rows=" ++ toString rows⟩

/-- What a turn leads to: the column, the session, and the lines that are logged. -/
structure Turn where
  run : ColumnRun
  session : Session
  lines : List Log.Line
deriving Repr

/-- Make the check of a rule and begin to check. -/
def beginRule (o : PassOptions) (rows : List Row) (s : Session) (c : Column) (rule : String) :
    Turn :=
  let cells := entries c.id rows
  let values := cells.map fun e => Value.text e.text
  let make := Check.compile rule values c.name o.messages o.now
  let (obtained, s) := s.checkFor c.id rule (some (values.map Mark.ofValue)) make
  match obtained with
  | .error (.mistake m) =>
    let text := badRuleText c.name m
    ⟨unchecked c.name .failed [⟨c.name, .badRule, text⟩], s, [⟨Log.warning, text⟩]⟩
  | .error (.fault f) => ⟨.failed f, s, []⟩
  | .ok obtained =>
    let index := ValueIndex.ofTexts (cells.map (·.text))
    let w : Checking := ⟨c.name, obtained.cached.check, index, cells.length, cells, [], 0⟩
    let (run, lines) := advance o.chunkSize w
    ⟨run, s, startLine c.name rule cells.length :: lines⟩

/-- The first turn of a column. -/
def begin (o : PassOptions) (rows : List Row) (s : Session) (c : Column) : Turn :=
  match RuleConfig.ofDescription c.description with
  | .error f => ⟨.failed f, s, []⟩
  | .ok .absent => ⟨unchecked c.name .noRule [], s, []⟩
  | .ok (.broken _ m) =>
    let text := RuleConfig.brokenText c.name m
    ⟨unchecked c.name .failed [⟨c.name, .brokenJson, text⟩], s, [⟨Log.warning, text⟩]⟩
  | .ok (.found rule _) => beginRule o rows s c rule

/-- A turn of a column. A column that has ended stays as it is. -/
def turn (o : PassOptions) (rows : List Row) (s : Session) (r : ColumnRun) : Turn :=
  match r with
  | .waiting c => begin o rows s c
  | .checking w =>
    let (run, lines) := advance o.chunkSize w
    ⟨run, s, lines⟩
  | r => ⟨r, s, []⟩

end ColumnRun

end TableAudit
