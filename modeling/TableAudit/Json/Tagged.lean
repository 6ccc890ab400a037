import TableAudit.Calendar.Iso
import TableAudit.Json.Read
import TableAudit.Number.Reading
import TableAudit.Value.Text

/-!
# Tagged JSON

JSON has no form for some values: doubles as such, large integers, bytes, dates, moments, tuples,
mappings with keys that are no texts, and objects with attributes. Here such a value is an object
with one key, a tag, that says how to take what is beside it.
-/

namespace TableAudit.Json.Tagged

open TableAudit.Calendar (Moment)

/-- Bytes from hexadecimal digits. -/
def bytesOfHex : List Char → List UInt8
  | a :: b :: cs =>
    UInt8.ofNat ((hexValue? a).getD 0 * 16 + (hexValue? b).getD 0) :: bytesOfHex cs
  | _ => []

/-- The moment of an ISO text. -/
def momentOf (s : String) : Moment :=
  (Calendar.Iso.moment? s).getD ⟨⟨1, 1, 1⟩, 0, none⟩

/-- The text of a value, empty if it is none. -/
def textOf (v : Value) : String :=
  (v.text?).getD ""

/-- The value of a tag with a text beside it. -/
def ofTag? (tag s : String) : Option Value :=
  match tag with
  | "$float" => some (.float ((Number.readDouble? s.toList).getD .nan))
  | "$int" => some (.int (s.toInt?.getD 0))
  | "$bytes" => some (.bytes (bytesOfHex s.toList))
  | "$dt" => some (.moment (momentOf s))
  | "$date" => some (.date (momentOf s).date)
  | "$ts" => some (if s = "NaT" then .noStamp else .stamp (momentOf s))
  | _ => none

/-- The value of a tag with a value beside it. -/
def ofEntry (tag : String) (v : Value) : Value :=
  match tag, v with
  | "$tuple", .list items => .tuple items
  | "$pairs", .list items =>
    .map (Value.ofPairs (items.filterMap fun
      | .list [k, x] => some (k, x)
      | _ => none))
  | "$attr", .map entries => .record (entries.map fun e => (textOf e.1, e.2))
  | tag, .text s => (ofTag? tag s).getD (.map [(.text tag, .text s)])
  | tag, v => .map [(.text tag, v)]

mutual

/-- The value that a JSON value with tags stands for. -/
def decode : Value → Value
  | .list items => .list (decodeAll items)
  | .map [(.text tag, v)] => ofEntry tag (decode v)
  | .map entries => .map (decodeEntries entries)
  | v => v

/-- The values that JSON values with tags stand for. -/
def decodeAll : List Value → List Value
  | [] => []
  | v :: vs => decode v :: decodeAll vs

/-- The entries that entries with tags stand for. -/
def decodeEntries : List (Value × Value) → List (Value × Value)
  | [] => []
  | (k, v) :: es => (k, decode v) :: decodeEntries es

end

/-- An object with one key. -/
def tagged (tag s : String) : Value :=
  .object [(tag, .text s)]

/-- The text of a key. A key that is no text shows that it is none. -/
def keyText : Value → String
  | .text s => s
  | k => "$key:" ++ k.literal

mutual

/-- A value with tags where JSON has no form for it. Tuples become lists. -/
def encode : Value → Value
  | .int n => if n.natAbs < Nat.pow 2 53 then .int n else tagged "$int" (toString n)
  | .float x => tagged "$float" x.text
  | .moment m => tagged "$dt" m.isoText
  | .stamp m => tagged "$dt" m.isoText
  | .noStamp => tagged "$dt" "NaT"
  | .date d => tagged "$date" d.text
  | .bytes b => tagged "$bytes" (String.ofList (b.flatMap fun c => Text.hex 2 c.toNat))
  | .list items => .list (encodeAll items)
  | .tuple items => .list (encodeAll items)
  | .map entries => .map (encodeEntries entries)
  | .record _ => tagged "$object" "Attr"
  | v => v

/-- Values with tags. -/
def encodeAll : List Value → List Value
  | [] => []
  | v :: vs => encode v :: encodeAll vs

/-- Entries with tags. -/
def encodeEntries : List (Value × Value) → List (Value × Value)
  | [] => []
  | (k, v) :: es => (.text (keyText k), encode v) :: encodeEntries es

end

end TableAudit.Json.Tagged
