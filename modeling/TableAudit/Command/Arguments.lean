import TableAudit.Settings.Load
import TableAudit.Text.Basic

/-!
# Arguments

The options of the command line. An option may be shortened as long as it can be told from the
others, and a value may follow it as the next argument or after an equals sign. Everything else is
refused; asking for help ends the reading.
-/

namespace TableAudit.Command

/-- What the arguments ask for. -/
structure Options where
  settingsPath : String
  debug : Bool
  json : Bool
  notify : Bool
deriving DecidableEq, Repr

/-- No arguments. -/
def Options.usual : Options :=
  ⟨Settings.usualPath, false, false, false⟩

/-- What reading the arguments comes to. -/
inductive Asked
  | run (o : Options)
  | help
  | refused
deriving DecidableEq, Repr

/-- The options that there are. -/
inductive Flag
  | help
  | config
  | debug
  | json
  | notify
deriving DecidableEq, Repr

namespace Flag

/-- The long name of an option. -/
def name : Flag → String
  | help => "--help"
  | config => "--config"
  | debug => "--debug"
  | json => "--json"
  | notify => "--notify"

/-- All options. -/
def all : List Flag := [help, config, debug, json, notify]

/-- The short name of the option that asks for help. -/
def shortHelp : String := "-h"

/-- The option of a full name. -/
def ofName? (s : String) : Option Flag :=
  if s = shortHelp then some help else all.find? (·.name = s)

/-- The options whose long names begin with a text. -/
def startingWith (s : String) : List Flag :=
  all.filter fun f => s.toList.isPrefixOf f.name.toList

end Flag

/-- What an argument is taken for. -/
inductive Argument
  /-- A value, or a word that belongs to no option. -/
  | word (s : String)
  | option (f : Flag) (value : Option String)
  /-- The short option with letters after it. -/
  | letters (s : List Char)
  | unknown
  | ambiguous
deriving DecidableEq, Repr

namespace Argument

/-- A name with the value after its equals sign, if it has one. -/
def parted (s : String) : String × Option String :=
  match Text.cutAt? '=' s.toList with
  | some (name, value) => (String.ofList name, some (String.ofList value))
  | none => (s, none)

/-- Whether a text is a negative number. -/
def isNegativeNumber (s : String) : Bool :=
  match s.toList with
  | '-' :: cs =>
    match Text.cutAt? '.' cs with
    | none => !cs.isEmpty && cs.all Text.isDecimalDigit
    | some (whole, places) =>
      whole.all Text.isDecimalDigit && !places.isEmpty && places.all Text.isDecimalDigit
  | _ => false

/-- An argument that begins like an option and is no option. -/
def noOption (s : String) : Argument :=
  if isNegativeNumber s || s.toList.contains ' ' then word s else unknown

/-- An argument with two dashes that is no full name. -/
def shortened (s : String) : Argument :=
  let (name, value) := parted s
  match Flag.startingWith name with
  | [] => noOption s
  | [f] => option f value
  | _ => ambiguous

/-- An argument with one dash that is no full name. -/
def oneDash (s : String) : Argument :=
  match Text.afterRun? Flag.shortHelp.toList s.toList with
  | some cs => letters cs
  | none => noOption s

/-- An argument with a full name and a value, if it is one. -/
def valued? (s : String) : Option Argument :=
  match parted s with
  | (name, some value) =>
    (Flag.ofName? name).map fun f =>
      if name = Flag.shortHelp then letters value.toList else option f (some value)
  | _ => none

/-- What an argument is taken for. -/
def ofText (s : String) : Argument :=
  match s.toList with
  | '-' :: c :: _ =>
    match Flag.ofName? s, valued? s with
    | some f, _ => option f none
    | none, some a => a
    | none, none => if c = '-' then shortened s else oneDash s
  | _ => word s

end Argument

/-- How far the arguments are read. Once something is left over, only help can be had. -/
structure ReadingArguments where
  options : Options
  isSpoiled : Bool
deriving Repr

/-- The end of the arguments. -/
def ReadingArguments.finish (r : ReadingArguments) : Asked :=
  if r.isSpoiled then .refused else .run r.options

/-- Set an option without a value. -/
def Options.set (o : Options) : Flag → Options
  | .debug => { o with debug := true }
  | .json => { o with json := true }
  | .notify => { o with notify := true }
  | _ => o

/-- Read arguments in turn. -/
def readFrom (r : ReadingArguments) : List Argument → Asked
  | [] => r.finish
  | .option .help none :: _ => .help
  | .option .config (some path) :: rest =>
    readFrom { r with options := { r.options with settingsPath := path } } rest
  | .option .config none :: .word path :: rest =>
    readFrom { r with options := { r.options with settingsPath := path } } rest
  | .option .config none :: _ => .refused
  | .option _ (some _) :: _ => .refused
  | .option f none :: rest => readFrom { r with options := r.options.set f } rest
  | .letters cs :: _ => if !cs.isEmpty && cs.all (· = 'h') then .help else .refused
  | .word _ :: rest => readFrom { r with isSpoiled := true } rest
  | .unknown :: rest => readFrom { r with isSpoiled := true } rest
  | .ambiguous :: _ => .refused

/-- The mark after which no option follows. It belongs to no option itself. -/
def endOfOptions : String := "--"

/-- Read arguments. An ambiguous one is refused before any other is looked at. -/
def readArguments (arguments : List String) : Asked :=
  let before := arguments.takeWhile (· ≠ endOfOptions)
  let marked := before.length < arguments.length
  let read := before.map Argument.ofText
  if read.contains .ambiguous then .refused
  else readFrom ⟨.usual, false⟩ (read ++ if marked then [.unknown] else [])

/-- The text that explains the command. -/
def helpText : String :=
  "usage: fieldcheck [-h] [--config CONFIG] [--debug] [--json] [--notify]\n\n" ++
  "Validate table columns against rules embedded in field descriptions\n\n" ++
  "options:\n" ++
  "  -h, --help       show this help message and exit\n" ++
  "  --config CONFIG  Path to the YAML config\n" ++
  "  --debug          Enable debug logging\n" ++
  "  --json           Print violations as JSON lines\n" ++
  "  --notify         Send the webhook notification when problems are found"

end TableAudit.Command
