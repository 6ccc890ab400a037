import TableAudit.Column.Basic
import TableAudit.Json.Read
import TableAudit.Text.Basic

/-!
# Rules in column descriptions

A rule is a JSON object in a column's description, under the key `validator`. Descriptions come as
a plain text, as a list of text runs, or as an object with such a list or with a text; the first
text that mentions the key is the one that carries the rule. A text without a rule is no problem,
a text that mentions the key but is no JSON is reported.
-/

namespace TableAudit

/-- What a description says about the rule of its column. -/
inductive RuleConfig
  /-- No rule. -/
  | absent
  /-- A text that should carry a rule but is no JSON. -/
  | broken (text : String) (mistake : Json.Mistake)
  /-- A rule and the entries beside it. -/
  | found (validator : String) (extra : List (Value × Value))
deriving Inhabited, Repr

namespace RuleConfig

/-- The key of a rule. -/
def marker : String := "validator"

/-- A text, if it mentions the key. -/
def marked? (text : String) : Option String :=
  if Text.occursIn marker text then some text else none

/-- The text of a run, if it mentions the key. -/
def runText? (run : Value) : Option String :=
  (run.get "text").text? >>= marked?

/-- The text of a run that says it is one, if it mentions the key. -/
def typedRunText? (run : Value) : Option String :=
  match run.get "type" with
  | .text "text" => runText? run
  | _ => none

/-- The text of a description that carries the rule. -/
def carrier? : Value → Option String
  | .text s => marked? s
  | .list runs => runs.findSome? runText?
  | .map entries =>
    match Value.lookup entries "content" with
    | some (.list runs) => runs.findSome? typedRunText?
    | _ => runText? (.map entries)
  | _ => none

/-- The wording for a broken rule text. -/
def brokenText (columnName : String) (mistake : Json.Mistake) : String :=
  "invalid rule JSON for column '" ++ columnName ++ "': " ++ mistake.text

/-- The rule in a JSON value. -/
def ofValue : Value → RuleConfig
  | .map entries =>
    match Value.lookup entries marker with
    | some (.text rule) =>
      if Text.isBlankText rule then absent
      else found rule (entries.filter fun e => e.1.text? != some marker)
    | _ => absent
  | _ => absent

/-- What a description says about the rule. -/
def ofDescription (description : Value) : Except Fault RuleConfig :=
  match carrier? description with
  | none => .ok absent
  | some text =>
    match Json.read (Text.trim text) with
    | .ok v => .ok (ofValue v)
    | .error (.mistake m) => .ok (broken text m)
    | .error .digitLimit => .error .digitLimit

end RuleConfig

end TableAudit
