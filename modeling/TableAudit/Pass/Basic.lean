import TableAudit.Pass.Column

/-!
# Passes

A pass puts every column of a table to its rule. The columns have their turns in any order; what
is reported depends on the columns and the rows alone, the columns in their order and in each the
rows in theirs.
-/

namespace TableAudit

/-- A pass under way. -/
structure Pass where
  options : PassOptions
  rows : List Row
  runs : List ColumnRun
  /-- The columns that ended, by their places, in the order in which they did. -/
  order : List Nat
deriving Repr

namespace Pass

/-- The wording for chunks without rows. -/
def noChunkText : String := "chunk_size must be positive"

/-- A pass over columns, before any turn. -/
def start (o : PassOptions) (rows : List Row) (columns : List Column) : Pass :=
  ⟨o, rows, columns.map .waiting, []⟩

/-- A size of chunks as a count of rows. A double is no count. -/
def wholeSize? : Number → Option Nat
  | .int n => some n.toNat
  | .float _ => none

/-- The options of a pass with a chunk size, if chunks hold rows. -/
def options? (chunkSize : Number) (messages : Messages) (now : Calendar.Moment) :
    Option PassOptions :=
  if chunkSize.le (.int 0) then none else some ⟨wholeSize? chunkSize, messages, now⟩

/-- What a turn of a pass leads to. -/
structure Turn where
  pass : Pass
  session : Session
  lines : List Log.Line
deriving Repr

/-- Whether a column has ended with an outcome. -/
def hasEnded : ColumnRun → Bool
  | .ended _ => true
  | _ => false

/-- A turn of the column at a place. -/
def turn (p : Pass) (s : Session) (i : Nat) : Turn :=
  match p.runs[i]? with
  | none => ⟨p, s, []⟩
  | some r =>
    if r.isOpen then
      let t := r.turn p.options p.rows s
      let order := if hasEnded t.run then p.order ++ [i] else p.order
      ⟨{ p with runs := p.runs.set i t.run, order := order }, t.session, t.lines⟩
    else ⟨p, s, []⟩

/-- The outcomes of columns that have all ended. -/
def outcomes? : List ColumnRun → Option (List ColumnOutcome)
  | [] => some []
  | .ended o :: rs => (outcomes? rs).map (o :: ·)
  | _ => none

/-- The report on columns that have all ended. -/
def reportOf (rows : Nat) (timestamp : String) (outcomes : List ColumnOutcome) : Report :=
  let stats := outcomes.map (·.stat)
  let validated := (stats.filter (·.status = .validated)).length
  ⟨aggregate timestamp (outcomes.filterMap (·.failures)), outcomes.flatMap (·.issues),
    outcomes.length, validated, outcomes.length - validated, rows, stats⟩

/-- The report of a pass whose columns have all ended. -/
def report? (p : Pass) (timestamp : String) : Option Report :=
  (outcomes? p.runs).map (reportOf p.rows.length timestamp)

/-- The statistics of the columns that ended, in the order in which they did. -/
def endedStats (p : Pass) : List ColumnStat :=
  p.order.filterMap fun i =>
    match p.runs[i]? with
    | some (ColumnRun.ended o) => some o.stat
    | _ => none

end Pass

end TableAudit
