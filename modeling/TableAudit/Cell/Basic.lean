import TableAudit.Cell.ColumnType
import TableAudit.Value.Basic
import TableAudit.Value.Text

/-!
# Cells

What a cell holds, sorted out once from its payload. The column's type decides where it says what
to expect; otherwise the shape of the payload does. Both the shapes of a table's own interface and
those of its remote interface are known. The texts in a cell are those of values in the payload,
which are kept.
-/

namespace TableAudit

/-- An option chosen in a select column. -/
structure Choice where
  id : Value
  label : Value

/-- The text of an option. -/
def Choice.text (c : Choice) : String := c.label.plain

/-- A person in a cell. -/
structure Person where
  id : Value
  label : Value

/-- The name of a person. -/
def Person.name (p : Person) : String := p.label.plain

/-- A file attached to a cell. -/
structure Attachment where
  label : Value
  size : Value
  timestamp : Value

/-- The name of a file. -/
def Attachment.name (a : Attachment) : String := a.label.plain

/-- A run of rich text. -/
structure Segment where
  content : Value
  kind : Value

/-- The text of a run. -/
def Segment.text (s : Segment) : String := s.content.plain

/-- The type of a run. -/
def Segment.type (s : Segment) : String := s.kind.plain

/-- A chat group in a cell. -/
structure ChatGroup where
  key : Value
  name : Value

/-- The identifier of a chat group. -/
def ChatGroup.id (g : ChatGroup) : String := g.key.plain

/-- Shapes that checks do not look into. -/
inductive UnsupportedKind
  | link
  | location
  | phone
  | autoNumber
  | attachment
deriving DecidableEq, Repr

/-- The name of an unsupported kind. -/
def UnsupportedKind.text : UnsupportedKind → String
  | link => "link"
  | location => "location"
  | phone => "phone"
  | autoNumber => "auto_number"
  | attachment => "attachment"

/-- What a cell holds; `other` keeps a payload of no known shape. -/
inductive Cell
  | empty
  | text (s : String)
  | number (n : Number)
  | timestamp (millis : Number)
  | checkbox (checked : Bool)
  | singleSelect (choice : Choice)
  | multiSelect (choices : List Choice)
  | users (people : List Person)
  | attachments (files : List Attachment)
  | segments (runs : List Segment)
  | groupChats (groups : List ChatGroup)
  | unsupported (kind : UnsupportedKind)
  | other (raw : Value)

namespace Cell

/-- The types whose cells are never looked into. -/
def unsupportedType? : ColumnType → Option UnsupportedKind
  | .url => some .link
  | .singleLink => some .link
  | .duplexLink => some .link
  | .location => some .location
  | .phone => some .phone
  | .autoNumber => some .autoNumber
  | _ => none

/-- Whether a type's cells hold people. -/
def holdsPeople (t : ColumnType) : Bool :=
  t == .user || t == .createdUser || t == .modifiedUser

/-- Whether a type's numbers are points in time. -/
def holdsTime (t : ColumnType) : Bool :=
  t == .dateTime || t == .createdTime || t == .modifiedTime

/-- The first of the values that a condition takes as true; otherwise the given text. -/
def firstOf (values : List Value) (otherwise : String) : Value :=
  (values.find? Value.isTruthy).getD (.text otherwise)

/-- The option that a payload describes. -/
def choice (item : Value) : Choice :=
  if item.isMap then ⟨item.get "id", firstOf [item.get "text", item.get "name"] ""⟩
  else ⟨.null, item⟩

/-- The person that a mapping describes. -/
def person (item : Value) : Person :=
  ⟨item.get "id", firstOf [item.get "name"] ""⟩

/-- The file that a mapping describes. -/
def attachment (item : Value) : Attachment :=
  ⟨firstOf [item.get "name"] "", item.get "size", item.get "timestamp"⟩

/-- The run of text that a mapping describes. -/
def segment (item : Value) : Segment :=
  ⟨firstOf [item.get "text"] "", firstOf [item.get "type"] "text"⟩

/-- The chat group that a mapping describes. -/
def chatGroup (item : Value) : ChatGroup :=
  ⟨firstOf [item.get "id"] "", item.get "name"⟩

/-- Whether a mapping looks like a file. -/
def looksLikeAttachment (item : Value) : Bool :=
  (item.has "file_token" || item.has "token") && item.has "name"

/-- Whether a mapping looks like a person. -/
def looksLikePerson (item : Value) : Bool :=
  item.has "email" || item.has "en_name" || item.has "enName"

/-- Whether a mapping looks like a chat group. -/
def looksLikeChatGroup (item : Value) : Bool :=
  item.has "id" && (item.has "avatar_url" || item.has "avatarUrl") && !looksLikePerson item

/-- The cell of a list of mappings; the first one tells what they are. -/
def ofMaps (first : Value) (items : List Value) : Cell :=
  if first.has "record_ids" || first.has "text_arr" then .unsupported .link
  else if looksLikeAttachment first then .attachments (items.map attachment)
  else if looksLikePerson first then .users (items.map person)
  else if looksLikeChatGroup first then .groupChats (items.map chatGroup)
  else if first.has "type" && first.has "text" then .segments (items.map segment)
  else if first.has "id" && first.has "text" then .multiSelect (items.map choice)
  else if first.has "text" then .segments (items.map segment)
  else if first.has "name" && first.has "id" then .users (items.map person)
  else .other (.list items)

/-- The cell of a list. -/
def ofItems (t : ColumnType) (items : List Value) : Cell :=
  match items with
  | [] => .empty
  | first :: _ =>
    if holdsPeople t then .users ((items.filter Value.isMap).map person)
    else if t = .groupChat then .groupChats ((items.filter Value.isMap).map chatGroup)
    else if t = .attachment then .attachments ((items.filter Value.isMap).map attachment)
    else if t = .multiSelect || items.all Value.isText then .multiSelect (items.map choice)
    else if items.all Value.isMap then ofMaps first items
    else .other (.list items)

/-- The cell of a mapping. -/
def ofMap (t : ColumnType) (entries : List (Value × Value)) : Cell :=
  let item := Value.map entries
  if t = .singleSelect || (item.has "id" && item.has "text" && entries.length ≤ 2) then
    .singleSelect (choice item)
  else if item.has "record_ids" || (item.has "link" && item.has "text") then .unsupported .link
  else if item.has "full_address" || item.has "location" || (item.has "lng" && item.has "lat") then
    .unsupported .location
  else if looksLikeAttachment item then .unsupported .attachment
  else if item.has "type" && item.has "text" then .segments [segment item]
  else .other item

/-- The cell of a number. -/
def ofNumber (t : ColumnType) (n : Number) : Cell :=
  if holdsTime t then .timestamp n else .number n

/-- Sort out a payload in a column of a type. -/
def ofPayload (t : ColumnType) (raw : Value) : Cell :=
  match raw, unsupportedType? t with
  | .null, _ => .empty
  | _, some kind => .unsupported kind
  | .bool b, none => .checkbox b
  | .int n, none => ofNumber t (.int n)
  | .float x, none => ofNumber t (.float x)
  | .text s, none => .text s
  | .list items, none => ofItems t items
  | .tuple items, none => ofItems t items
  | .map entries, none => ofMap t entries
  | raw, none => .other raw

end Cell

end TableAudit
