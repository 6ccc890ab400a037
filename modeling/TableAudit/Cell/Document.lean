import TableAudit.Cell.Basic

/-!
# Cells as documents

What a cell holds, spelled out: the name of its shape, and the parts that the shape has.
-/

namespace TableAudit

/-- The option as a document. -/
def Choice.document (c : Choice) : Value :=
  .object [("id", c.id), ("text", .text c.text)]

/-- The person as a document. -/
def Person.document (p : Person) : Value :=
  .object [("id", p.id), ("name", .text p.name)]

/-- The file as a document. -/
def Attachment.document (a : Attachment) : Value :=
  .object [("name", .text a.name), ("size", a.size), ("timestamp", a.timestamp)]

/-- The run of text as a document. -/
def Segment.document (s : Segment) : Value :=
  .object [("text", .text s.text), ("type", .text s.type)]

/-- The chat group as a document. -/
def ChatGroup.document (g : ChatGroup) : Value :=
  .object [("id", .text g.id), ("name", g.name)]

namespace Cell

/-- The name of the shape of a cell. -/
def shapeName : Cell → String
  | empty => "Empty"
  | text _ => "Text"
  | number _ => "Number"
  | timestamp _ => "Timestamp"
  | checkbox _ => "Checkbox"
  | singleSelect _ => "SingleSelect"
  | multiSelect _ => "MultiSelect"
  | users _ => "Users"
  | attachments _ => "Attachments"
  | segments _ => "Segments"
  | groupChats _ => "GroupChats"
  | unsupported _ => "Unsupported"
  | other _ => "Opaque"

/-- The parts of a cell, by their names. -/
def parts : Cell → List (String × Value)
  | empty => []
  | text s => [("text", .text s)]
  | number n => [("value", n.toValue)]
  | timestamp n => [("millis", n.toValue)]
  | checkbox b => [("checked", .bool b)]
  | singleSelect c => [("option", c.document)]
  | multiSelect cs => [("options", .list (cs.map Choice.document))]
  | users ps => [("users", .list (ps.map Person.document))]
  | attachments fs => [("items", .list (fs.map Attachment.document))]
  | segments ss => [("segments", .list (ss.map Segment.document))]
  | groupChats gs => [("chats", .list (gs.map ChatGroup.document))]
  | unsupported k => [("kind", .text k.text)]
  | other raw => [("raw", raw)]

/-- The cell as a document. -/
def document (c : Cell) : Value :=
  .object c.parts

end Cell

end TableAudit
