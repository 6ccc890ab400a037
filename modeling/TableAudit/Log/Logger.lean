import TableAudit.Message.Percent

/-!
# The log

A log line has a level and a text. It is written with a label for its level in front, and the text
of an error after it where there is one.

The logger is set up once: it then writes to one stream what is at least as grave as its level.
Other parties may attach handlers, which write nothing here; setting up and resetting removes
them.
-/

namespace TableAudit.Log

/-! ### Lines -/

/-- The levels that have a name of their own. -/
def debug : Int := 10
/-- Ordinary messages. -/
def info : Int := 20
/-- The line that sums up a pass. -/
def summary : Int := 25
/-- Warnings. -/
def warning : Int := 30
/-- Errors. -/
def error : Int := 40

/-- The label of a level. -/
def label (level : Int) : String :=
  match level with
  | 0 => "NOTSET"
  | 10 => "DEBUG"
  | 20 => "INFO"
  | 25 => "SUMMARY"
  | 30 => "WARN"
  | 40 => "ERROR"
  | 50 => "CRITICAL"
  | n => "Level " ++ toString n

/-- A message that is logged. -/
structure Line where
  level : Int
  text : String
deriving DecidableEq, Repr

/-- The text of a message with values filled in; without values the text stays as it is. -/
def message (text : String) (values : List Value) : Except Fault String :=
  if values.isEmpty then .ok text else Message.Percent.format text values

/-- A message as it is written. -/
def Line.render (l : Line) : String :=
  label l.level ++ " " ++ l.text

/-- The text of an error after a message. -/
def errorText (kind reason : String) : String :=
  if reason.isEmpty then kind else kind ++ ": " ++ reason

/-! ### The logger -/

/-- What handles messages. -/
inductive Handler
  /-- Writes to the stream what is at least as grave as a level. -/
  | stream (level : Int)
  /-- Someone else's. -/
  | foreign
deriving DecidableEq, Repr

/-- The state of the logger. -/
structure Logger where
  configured : Bool
  level : Option Int
  handlers : List Handler
  propagate : Bool
deriving DecidableEq, Repr

namespace Logger

/-- The logger before anything was done with it. -/
def fresh : Logger := ⟨false, none, [], true⟩

/-- Set up the logger, once. -/
def setUp (l : Logger) : Logger :=
  if l.configured then l else ⟨true, some info, [.stream info], false⟩

/-- Let debugging messages through, or not. -/
def setDebug (on : Bool) (l : Logger) : Logger :=
  let l := l.setUp
  let level := if on then debug else info
  { l with
    level := some level
    handlers := l.handlers.map fun
      | .stream _ => .stream level
      | .foreign => .foreign }

/-- Forget the setup. The level stays. -/
def reset (l : Logger) : Logger :=
  if l.configured then { l with configured := false, handlers := [], propagate := true } else l

/-- Attach someone else's handler. -/
def attach (l : Logger) : Logger :=
  { l with handlers := l.handlers ++ [.foreign] }

/-- Whether messages of a level are handled at all. Without a level of its own the logger passes
warnings. -/
def passes (l : Logger) (level : Int) : Bool :=
  0 < level && l.level.getD warning ≤ level

/-- Whether a handler writes a message of a level. -/
def Handler.writes (level : Int) : Handler → Bool
  | .stream least => least ≤ level
  | .foreign => false

/-- What is written for a message with text already made. -/
def written (l : Logger) (level : Int) (text : String) : String :=
  if l.passes level then
    String.join ((l.handlers.filter (Handler.writes level)).map fun _ =>
      (Line.mk level text).render ++ "\n")
  else ""

/-- What is written for a message; a message that cannot be made is not written. -/
def log (l : Logger) (level : Int) (text : String) (values : List Value)
    (error : Option String) : String :=
  match message text values with
  | .ok s => l.written level (s ++ (error.map ("\n" ++ ·)).getD "")
  | .error _ => ""

end Logger

end TableAudit.Log
