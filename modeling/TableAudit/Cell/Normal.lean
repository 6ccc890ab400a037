import TableAudit.Cell.Basic
import TableAudit.Json.Write

/-!
# Normal texts of cells

Every cell has one normal text, which rules, uniqueness and reports work with. Plain numbers above
a threshold are taken as milliseconds since the epoch and written as an instant, as are all
numbers of a time column; a number that is no instant of the calendar keeps its number text. Cells
that checks do not look into share one marker text, so two of them count as equal. A cell whose text
takes an integer with too many digits is not written.
-/

namespace TableAudit

open TableAudit.Calendar (Moment)

namespace Cell

/-- The text of every cell that checks do not look into. -/
def unsupportedText : String :=
  "[validation not supported for this cell type]"

/-- Numbers above this are taken as milliseconds since the epoch. -/
def timestampThreshold : Number :=
  .int 1000000000000

/-- The instant of a number of milliseconds, written to the millisecond. -/
def instantText? (millis : Number) : Option String := do
  let seconds ← millis.divNat? 1000
  let m ← Moment.ofEpoch? seconds
  some m.millisText

/-- The text of a number: a double without fraction below 10^16 is written as an integer. -/
def numberText : Number → String
  | .int n => toString n
  | .float x =>
    if x.isIntegral && x.abs.compareInt? 10000000000000000 == some .lt then
      ((x.truncate?).map toString).getD ""
    else x.text

/-- A value in a text, nothing leaving no trace. -/
def partText : Value → String
  | .null => ""
  | v => v.plain

/-- A file's name, size and time, which tell files apart. -/
def attachmentText (a : Attachment) : String :=
  a.name ++ partText a.size ++ partText a.timestamp

/-- The JSON text of a payload, or its plain text where it has none. -/
def otherText (raw : Value) : String :=
  (Json.write? Json.spaced raw).getD raw.plain

/-- The normal text of a cell. -/
def normal : Cell → String
  | .empty => ""
  | .text s => s
  | .number n =>
    if timestampThreshold.lt n then (instantText? n).getD (numberText n) else numberText n
  | .timestamp n => (instantText? n).getD (numberText n)
  | .checkbox checked => if checked then "true" else "false"
  | .singleSelect c => c.text
  | .multiSelect cs => Text.joinWith "," (cs.map (·.text))
  | .users ps => Text.joinWith "," (ps.map (·.name))
  | .attachments as => Text.joinWith "," (as.map attachmentText)
  | .segments ss => String.join (ss.map (·.text))
  | .groupChats gs => Text.joinWith "," (gs.map (·.id))
  | .unsupported _ => unsupportedText
  | .other raw => otherText raw

/-- The normal text of a payload in a column of a type. -/
def normalText (t : ColumnType) (raw : Value) : String :=
  (ofPayload t raw).normal

/-- The values that are written for a cell. A number with too many digits is no instant. -/
def sources : Cell → List Value
  | .number n => [n.toValue]
  | .timestamp n => [n.toValue]
  | .singleSelect c => [c.label]
  | .multiSelect cs => cs.map (·.label)
  | .users ps => ps.map (·.label)
  | .attachments as => as.flatMap fun a => [a.label, a.size, a.timestamp]
  | .segments ss => ss.flatMap fun s => [s.content, s.kind]
  | .groupChats gs => gs.map (·.key)
  | .other raw => [raw]
  | _ => []

/-- Whether all that is written for a cell can be. -/
def isWritable (c : Cell) : Bool :=
  c.sources.all Value.isWritable

/-- The normal text of a cell, if it can be written. -/
def written (c : Cell) : Except Fault String :=
  if c.isWritable then .ok c.normal else .error .digitLimit

/-- The normal text of a payload in a column of a type, as it is written. -/
def writtenText (t : ColumnType) (raw : Value) : Except Fault String :=
  (ofPayload t raw).written

/-- The type that a hint stands for. Without a hint it is unknown. -/
def hintedType : Value → Except Fault ColumnType
  | .null => .ok .unknown
  | hint => ColumnType.ofCode hint

/-- The normal text of a payload for which a type may be hinted at, as it is written. -/
def hintedText (hint raw : Value) : Except Fault String := do
  let t ← hintedType hint
  writtenText t raw

end Cell

end TableAudit
