import Std.Time.DateTime.Timestamp
import TableAudit.Command.Audit
import TableAudit.Http.Document

/-!
# The program

The command line with its surroundings. Requests are handed on as lines of JSON on the error
stream, and a reply to each is read as a line of JSON from the input: a `status` with a `text`, or
a `fail` with a message.
-/

namespace TableAudit.Command

open TableAudit.Http (Talk Reply)

/-- How many pages a list may have. -/
def pageBound : Nat := 1000000

/-- The text of a file, if it is there. -/
def readFile? (path : String) : IO (Option String) := do
  try
    return some (← IO.FS.readFile path)
  catch
    | .noFileOrDirectory .. => return none
    | e => throw e

/-- The files that are there among some paths. -/
def readFolder (paths : List String) : IO Folder := do
  let files ← paths.mapM fun path => do
    return (← readFile? path).map fun text => (path, text)
  return .ofFiles (files.filterMap id)

/-- The variables that are set among some names. -/
def readEnvironment (names : List String) : IO Settings.Environment := do
  let found ← names.mapM fun name => do
    return (← IO.getEnv name).map fun value => (name, value)
  return found.filterMap id

/-- What the command line is given, from its arguments. -/
def invocationOf (arguments : List String) : IO Invocation := do
  let paths := match readArguments arguments with
    | .run o => [variablesPath, o.settingsPath]
    | _ => []
  let folder ← readFolder paths
  let mentioned := Settings.EnvironmentFile.mentioned
    (((folder.text? variablesPath).getD "").toList)
  return ⟨arguments, ← readEnvironment (Settings.variableNames ++ mentioned), folder⟩

/-- The present moment in universal time. -/
def presentMoment : IO Calendar.Moment := do
  let nanos := (← Std.Time.Timestamp.now).toNanosecondsSinceUnixEpoch.val
  return (Calendar.Moment.ofInstant? (nanos.fdiv 1000)).getD default

/-- A reply as it is handed in. -/
def replyOf (line : String) : Reply :=
  match Json.read line with
  | .error _ => .error "no reply"
  | .ok v =>
    match v.get? "fail" with
    | some m => .error m.plain
    | none =>
      match v.get "status" with
      | .int n => .ok ⟨n.toNat, (textOf (v.get "text")).toUTF8.toList⟩
      | _ => .error "no reply"

/-- Hand on a request and wait for the reply. -/
def exchange (r : Http.Request) : IO Reply := do
  (← IO.getStderr).putStrLn ((Json.write? Json.spaced r.document).getD "null")
  (← IO.getStderr).flush
  return replyOf (← (← IO.getStdin).getLine)

/-- Milliseconds of a number of seconds. -/
def millisOf (seconds : Number) : Nat :=
  match seconds.toDouble? with
  | none => 0
  | some x => (((x.mul (.ofInt 1000)).truncate?).getD 0).toNat

/-- Hold a talk with the surroundings. -/
def holdWithSurroundings {α : Type} (logger : Log.Logger) : Talk α → IO α
  | .done a => return a
  | .send r next => do holdWithSurroundings logger (next (← exchange r))
  | .note l next => do
    IO.print (written logger (.line l))
    holdWithSurroundings logger next
  | .print s next => do
    IO.print (written logger (.text s))
    holdWithSurroundings logger next
  | .pause wait next => do
    IO.sleep (millisOf wait).toUInt32
    holdWithSurroundings logger next
  | .look next => do holdWithSurroundings logger (next (← presentMoment))

end TableAudit.Command

open TableAudit.Command in
/-- The program. A run that breaks off fails. -/
def main (arguments : List String) : IO UInt32 := do
  let invocation ← invocationOf arguments
  let ending ← holdWithSurroundings (loggerOf invocation) (run pageBound invocation)
  match ending.exitCode? with
  | some code => return code.toUInt32
  | none =>
    IO.eprintln "the run broke off"
    return 1
