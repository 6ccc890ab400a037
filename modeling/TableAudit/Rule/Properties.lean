import TableAudit.Rule.Basic

/-!
# Properties of rules

A rule is written in one of two ways. The short way is its type followed by properties, separated
by bars, where a property is `key:value` or a key alone, which stands for true. The other way is a
JSON object with the type among its entries. In the short way a value is read as a truth value or
a number where it looks like one, and stays a text otherwise.
-/

namespace TableAudit.Rule

/-- Properties by their keys, in order of first mention. -/
abbrev Properties := List (String × Value)

namespace Properties

/-- The value of a key. -/
def get? (ps : Properties) (key : String) : Option Value :=
  ps.lookup key

/-- The value of a key, nothing where it is missing. -/
def get (ps : Properties) (key : String) : Value :=
  (ps.get? key).getD .null

/-- Enter a property: a known key keeps its place and takes the new value. -/
def set : Properties → String → Value → Properties
  | [], key, v => [(key, v)]
  | (k, w) :: ps, key, v => if k = key then (k, v) :: ps else (k, w) :: set ps key v

end Properties

/-- The value of a property in the short way. Only the look of the trimmed text decides how it is
read, the reading itself takes the whole text. -/
def scalar (cs : List Char) : Except Fault Value :=
  let trimmed := TableAudit.Text.trimChars cs
  let low := TableAudit.Text.lower trimmed
  if low = "true".toList then .ok (.bool true)
  else if low = "false".toList then .ok (.bool false)
  else
    match TableAudit.Number.form? trimmed with
    | none => .ok (.text (String.ofList cs))
    | some f =>
      if f.isInteger then (TableAudit.Number.readInteger cs).map .int
      else
        match TableAudit.Number.readDouble? cs with
        | some x => .ok (.float x)
        | none => .error .malformed

/-- Enter the property that a piece between bars spells; a blank piece spells none. -/
def addPiece (ps : Properties) (piece : List Char) : Except Fault Properties :=
  let piece := TableAudit.Text.trimChars piece
  if piece.isEmpty then .ok ps
  else
    let enter (key : List Char) (v : Value) :=
      ps.set (String.ofList (TableAudit.Text.trimChars key)) v
    match TableAudit.Text.cutAt? ':' piece with
    | none => .ok (enter piece (.bool true))
    | some (key, raw) => (scalar raw).map (enter key)

/-- The properties of a rule written the short way. -/
def ofShort (cs : List Char) : Except Fault Properties :=
  match TableAudit.Text.splitAll '|' cs with
  | [] => .ok []
  | type :: pieces =>
    pieces.foldlM addPiece [("type", .text (String.ofList (TableAudit.Text.trimChars type)))]

/-- The properties in the entries of an object. -/
def ofEntries (entries : List (Value × Value)) : Properties :=
  entries.filterMap fun e => e.1.text?.map fun k => (k, e.2)

/-- The properties of a rule written as an object. -/
def ofObject (s : String) : Except Refusal Properties :=
  match Json.read s with
  | .error (.mistake m) => .error (.mistake (.notJson m))
  | .error .digitLimit => .error (.fault .digitLimit)
  | .ok (.map entries) =>
    match Value.lookup entries "type" with
    | some (.text _) => .ok (ofEntries entries)
    | _ => .error (.mistake .noType)
  | .ok _ => .error (.mistake .noType)

/-- The properties that the text of a rule declares. -/
def properties (source : String) : Except Refusal Properties :=
  let cs := TableAudit.Text.trimChars source.toList
  match cs with
  | [] => .error (.mistake .empty)
  | '\x7b' :: _ => ofObject (String.ofList cs)
  | _ => (ofShort cs).mapError .fault

end TableAudit.Rule
