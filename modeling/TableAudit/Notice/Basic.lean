import TableAudit.Digest.Md5
import TableAudit.Number.Basic
import TableAudit.Report.Aggregate
import TableAudit.Table.Row
import TableAudit.Text.Quoted

/-!
# Notices

After a pass a notice can be posted: a title, an optional link to the table, a line for every
summary, and a closing line that mentions the person who last changed one of the failing rows.
Notices already sent are known by a key of the table, the columns and the record.
-/

namespace TableAudit.Notice

/-- The time of a row's last change, zero where it is not known. -/
def changeTime (r : Row) : Number :=
  r.lastModifiedTime.getD (.int 0)

/-- Whether a row counts for the mention: it has a violation and a person is known. -/
def counts (failing : List String) (r : Row) : Bool :=
  failing.contains r.recordId && (r.lastModifiedBy.getD "") ≠ ""

/-- The later changed of two rows, the first where they are equally late. -/
def later (best : Option Row) (r : Row) : Option Row :=
  match best with
  | none => some r
  | some b => if (changeTime b).lt (changeTime r) then some r else some b

/-- The person who last changed one of the rows with violations. -/
def lastModifier? (rows : List Row) (vs : List Violation) : Option String :=
  let failing := vs.map (·.recordId)
  ((rows.filter (counts failing)).foldl later none).bind (·.lastModifiedBy)

/-- How a notice is worded. -/
structure Wording where
  title : String
  locale : String
  tableUrl : Option String
  linkText : String
  closingText : String
deriving Repr

/-- The usual wording. -/
def Wording.usual : Wording :=
  ⟨"Data validation issues", "en_us", none, "Open table", "\nPlease fix these, thank you! "⟩

/-- A run of text in a notice. -/
def textRun (s : String) : Value :=
  .object [("tag", .text "text"), ("text", .text s)]

/-- The lines of a notice. -/
def content (w : Wording) (summaries : List ProblemSummary) (userId : Option String) : List Value :=
  let link := match w.tableUrl with
    | none => []
    | some url =>
      if url = "" then []
      else [.list [.object [("tag", .text "a"), ("text", .text w.linkText), ("href", .text url)]]]
  let mention := match userId with
    | none => []
    | some id =>
      if id = "" then [] else [.object [("tag", .text "at"), ("user_id", .text id)]]
  link ++ summaries.map (fun s => .list [textRun s.line]) ++
    [.list (textRun w.closingText :: mention)]

/-- The notice. -/
def message (w : Wording) (summaries : List ProblemSummary) (userId : Option String) : Value :=
  .object [("msg_type", .text "post"),
    ("content", .object [("post", .object [(w.locale,
      .object [("title", .text w.title), ("content", .list (content w summaries userId))])])])]

/-- The first characters of a text. -/
def firstChars (n : Nat) (s : String) : String :=
  String.ofList (s.toList.take n)

/-- The text that a key's digest is taken of. -/
def keyText (table columns recordId : String) (lastModified : Value) : String :=
  let time := match lastModified with
    | .null => ""
    | v => v.plain
  table ++ "_" ++ columns ++ "_" ++ recordId ++ "_" ++ time

/-- Eight hexadecimal digits of a text's digest. -/
def shortDigest (s : String) : String :=
  firstChars 8 (String.ofList
    ((Md5.digest s.toUTF8.toList).flatMap fun b => Text.hex 2 b.toNat))

/-- The key under which a notice is known: the columns, the row or else the record, and a digest of
everything. -/
def key (table columns recordId : String) (lastModified : Value) (rowNumber : Option Int) :
    String :=
  let row := match rowNumber with
    | none => firstChars 8 recordId
    | some n => if n = 0 then firstChars 8 recordId else toString n
  firstChars 8 columns ++ "." ++ row ++ "." ++
    shortDigest (keyText table columns recordId lastModified)

end TableAudit.Notice
