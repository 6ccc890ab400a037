import TableAudit.Command.Arguments
import TableAudit.Command.Folder
import TableAudit.Log.Logger
import TableAudit.Notice.Delivery
import TableAudit.Pass.Schedule
import TableAudit.Report.SummaryLine
import TableAudit.Remote.Table
import TableAudit.Settings.EnvironmentFile

/-!
# The command line

One pass over a remote table: the settings are loaded, the table is read, every column is put to
its rule, what was found is printed, and a notice is posted where that is asked for. The run ends
clean, with something found, or failed; a run that breaks off has a cause instead.
-/

namespace TableAudit.Command

open TableAudit.Http (Talk)
open TableAudit.Calendar (Moment)

/-- How a run ends that was carried out. -/
inductive Outcome
  | clean
  /-- The table has violations or issues. -/
  | found
  | failed
deriving DecidableEq, Repr

/-- Why a run broke off. -/
inductive Breakdown
  | fault (f : Fault)
  /-- A folder stands where the settings are looked for. -/
  | folder
  /-- The token that authorizes requests cannot be sent. -/
  | unsendableToken
  /-- The policy for posting allows no attempt. -/
  | noAttempt
  /-- A chunk would have no rows. -/
  | noChunk
  | unfinished
deriving DecidableEq, Repr

/-- How the command line ends. -/
inductive Ending
  | helped
  | refused
  | done (o : Outcome)
  | broken (b : Breakdown)
deriving DecidableEq, Repr

/-- The exit code, unless the run broke off. -/
def Ending.exitCode? : Ending → Option Nat
  | helped => some 0
  | refused => some 2
  | done .clean => some 0
  | done .failed => some 1
  | done .found => some 2
  | broken _ => none

/-- What the command line is given. -/
structure Invocation where
  arguments : List String
  environment : Settings.Environment
  folder : Folder
deriving Repr

/-! ## Settings as they are used -/

/-- The text of a setting; one that is no text is as an empty one. -/
def textOf (v : Value) : String :=
  v.text?.getD ""

/-- The text of a setting, if it is one and not empty. -/
def filled? (v : Value) : Option String :=
  v.text?.bind fun s => if s.isEmpty then none else some s

/-- The number of a setting. -/
def numberOf (v : Value) : Number :=
  v.number?.getD (.int 0)

/-- The wordings that are texts for codes that are texts. -/
def messagesOf (es : List (Value × Value)) : Messages :=
  es.filterMap fun e => do
    let code ← e.1.text?
    let wording ← e.2.text?
    some (code, wording)

/-- The policy for posting. An attempt that is written as a double is no count. -/
def policyOf (s : RetrySettings) : Except Breakdown RetryPolicy :=
  match s.attempts with
  | .int n => .ok ⟨n, numberOf s.baseDelay, numberOf s.maxDelay⟩
  | _ => .error (.fault .wrongKind)

/-- How a notice is worded. -/
def wordingOf (s : NoticeSettings) : Notice.Wording :=
  ⟨textOf s.title, textOf s.locale, s.tableUrl.text?, textOf s.linkText, textOf s.closingText⟩

/-- The settings without which no run is possible, by their variables. -/
def needed (s : Settings) : List (String × Value) :=
  [(Settings.accessTokenVariable, s.remote.accessToken),
    (Settings.appTokenVariable, s.remote.appToken), (Settings.tableIdVariable, s.remote.tableId)]

/-- The variables of the settings that are missing. -/
def missing (s : Settings) : List String :=
  ((needed s).filter fun n => (filled? n.2).isNone).map (·.1)

/-- Where the table is. A token with other characters than those of ASCII cannot be sent. -/
def locationOf (s : RemoteSettings) : Except Breakdown Remote.Location :=
  let token := textOf s.accessToken
  if token.toList.all (·.toNat < 128) then
    .ok ⟨textOf s.baseUrl, textOf s.appToken, textOf s.tableId, some ("Bearer " ++ token)⟩
  else .error .unsendableToken

/-! ## What is printed -/

/-- A line with a level. -/
def note (level : Int) (text : String) : Talk Unit :=
  .note ⟨level, text⟩ (.done ())

/-- Lines in turn. -/
def notes : List Log.Line → Talk Unit
  | [] => .done ()
  | l :: ls => .note l (notes ls)

/-- The line for a violation. -/
def violationLine (v : Violation) : String :=
  let conflicts := match v.conflictRows with
    | none => ""
    | some rows =>
      if rows.isEmpty then "" else " conflicts=" ++ (Violation.rowsValue rows).literal
  "row=" ++ toString v.rowNumber ++ " column='" ++ v.columnName ++ "' value=" ++
    Text.quoted v.cellValue ++ " problem=" ++ v.problem ++ conflicts

/-- Print the issues of a report. -/
def printIssues : List Issue → Talk Unit
  | [] => .done ()
  | i :: is =>
    .note ⟨Log.warning, "column '" ++ i.columnName ++ "': " ++ i.message⟩ (printIssues is)

/-- Print the violations of a report, as lines of JSON or for reading. -/
def printViolations (json : Bool) : List Violation → Talk Unit
  | [] => .done ()
  | v :: vs =>
    if json then .print v.jsonLine (printViolations json vs)
    else .note ⟨Log.info, violationLine v⟩ (printViolations json vs)

/-- Seconds between two moments. -/
def secondsBetween (a b : Moment) : Number :=
  .float (Number.Binary64.ofRatio false (b.localMicros - a.localMicros).toNat Calendar.second)

/-- How many cells were checked per second, zero if no time went by. -/
def rateOf (r : Report) (elapsed : Number) : Number :=
  let cells : Nat := r.stats.foldl (fun n stat => n + stat.checkedRows) 0
  match elapsed with
  | .float x => if x.isZero then .float (.zero false) else .float ((Number.Binary64.ofInt cells).div x)
  | .int _ => .float (.zero false)

/-! ## The run -/

/-- Post a notice on what was found. -/
def notify (s : Settings) (rows : List Row) (r : Report) : Talk Ending := do
  match filled? s.notice.webhookUrl with
  | none =>
    note Log.warning "--notify given but no webhook url configured"
    return .done .found
  | some url =>
    let person := Notice.lastModifier? rows r.violations
    if person.isNone then
      note Log.warning "no last modifier found; message is sent without a mention"
    let message :=
      Notice.message (wordingOf s.notice) (ProblemSummary.ofViolations r.violations) person
    match policyOf s.retry with
    | .error b => return .broken b
    | .ok policy =>
      match ← Notice.deliver policy url message with
      | .ok () => return .done .found
      | .error (.undelivered e) =>
        note Log.error ("notify: " ++ Notice.undeliveredText e.longText)
        return .done .failed
      | .error .noAttempt => return .broken .noAttempt
      | .error (.fault f) => return .broken (.fault f)

/-- Print a report, and post a notice if that is asked for. -/
def conclude (o : Options) (s : Settings) (rows : List Row) (r : Report) (elapsed : Number) :
    Talk Ending := do
  printIssues r.issues
  printViolations o.json r.violations
  match SummaryLine.render r elapsed (rateOf r elapsed) with
  | .error f => return .broken (.fault f)
  | .ok line =>
    .print line (.done ())
    if o.notify && !r.violations.isEmpty then notify s rows r
    else return .done (if r.state = .clean then .clean else .found)

/-- Put the columns to their rules. -/
def check (o : Options) (s : Settings) (columns : List Column) (rows : List Row) : Talk Ending := do
  let begun ← Talk.look .done
  match Pass.options? (numberOf s.engine.chunkSize) (messagesOf s.messages) begun with
  | none => return .broken .noChunk
  | some options =>
    let q := PassSchedule.run (Pass.start options rows columns) Session.fresh
    notes q.lines
    let ended ← Talk.look .done
    match q.result ended.zuluText with
    | .error f => return .broken (.fault f)
    | .ok none => return .broken .unfinished
    | .ok (some r) => conclude o s rows r (secondsBetween begun ended)

/-- Read the columns and the rows of the table. -/
def fetch (l : Remote.Location) (pages : Nat) (s : Settings) :
    Remote.TableExchange (List Column × List Row) := do
  let columns ← Remote.fields l pages
  let rows ← Remote.readRows l pages ⟨columns, s.remote.viewId, numberOf s.engine.pageSize⟩
  pure (columns, rows)

/-- The line for a table that was read. -/
def tableLine (s : Settings) (columns rows : Nat) : String :=
  "table=" ++ textOf s.remote.tableId ++ " columns=" ++ toString columns ++ " rows=" ++
    toString rows

/-- Read the table and go on with it. `pages` bounds how many pages a list may have. -/
def audit (pages : Nat) (o : Options) (s : Settings) : Talk Ending := do
  match locationOf s.remote with
  | .error b => return .broken b
  | .ok l =>
    let (fetched, _) ← ((fetch l pages s).run).run none
    match fetched with
    | .error (.failure m) =>
      note Log.error ("data source: " ++ m)
      return .done .failed
    | .error (.fault f) => return .broken (.fault f)
    | .error .unfinished => return .broken .unfinished
    | .ok (columns, rows) =>
      note Log.info (tableLine s columns.length rows.length)
      check o s columns rows

/-- Go on with settings, if none is missing. -/
def begin (pages : Nat) (o : Options) (s : Settings) : Talk Ending := do
  if o.debug then note Log.debug "debug mode enabled"
  if (missing s).isEmpty then audit pages o s
  else
    note Log.error ("config: missing " ++ Text.joinWith ", " (missing s))
    return .done .failed

/-- The file of variables in the folder. -/
def variablesPath : String := ".env"

/-- The settings that a file makes. -/
def settingsOf (o : Options) (file : Option String) (i : Invocation) :
    Except Settings.LoadError Settings :=
  Settings.load o.settingsPath false file
    (Settings.EnvironmentFile.extend (i.folder.text? variablesPath) i.environment)

/-- Load the settings and go on. -/
def loadAndRun (pages : Nat) (i : Invocation) (o : Options) (file : Option String) :
    Talk Ending := do
  match settingsOf o file i with
  | .error (.mistake m) =>
    note Log.error ("config: " ++ m.text)
    return .done .failed
  | .error .badSchema => return .broken (.fault .wrongKind)
  | .error (.fault f) => return .broken (.fault f)
  | .ok s => begin pages o s

/-- A run with options. -/
def runWith (pages : Nat) (i : Invocation) (o : Options) : Talk Ending :=
  match i.folder.find o.settingsPath with
  | .folder => .done (.broken .folder)
  | .missing => loadAndRun pages i o none
  | .file text => loadAndRun pages i o (some text)

/-- A run of the command line. -/
def run (pages : Nat) (i : Invocation) : Talk Ending :=
  match readArguments i.arguments with
  | .help => .print helpText (.done .helped)
  | .refused => .done .refused
  | .run o => runWith pages i o

/-! ## The output -/

/-- The logger of a run. -/
def loggerOf (i : Invocation) : Log.Logger :=
  match readArguments i.arguments with
  | .run o => if o.debug then Log.Logger.fresh.setDebug true else Log.Logger.fresh.setUp
  | _ => Log.Logger.fresh.setUp

/-- What an event writes. -/
def written (l : Log.Logger) : Talk.Event → String
  | .line line => l.written line.level line.text
  | .text s => s ++ "\n"
  | _ => ""

end TableAudit.Command
