import TableAudit.Value.Text

/-!
# Writing JSON

Values are written with given separators. Texts keep their characters, except that quote,
backslash and control characters are escaped; on request all characters that are not printable
ASCII are escaped as UTF-16 units. Undefined and infinite numbers have the spellings `NaN` and
`Infinity`. A value that JSON has no form for is written as the text of its plain form. Keys of
mappings are texts, numbers, truth values or nothing; a mapping with any other key has no JSON
text.
-/

namespace TableAudit.Json

open TableAudit.Text (hex)
open TableAudit.Number (Binary64)

/-- How a JSON text is laid out. -/
structure Layout where
  comma : String
  colon : String
  ascii : Bool
deriving Repr

/-- A space after every comma and colon, all characters kept. -/
def spaced : Layout := ⟨", ", ": ", false⟩

/-- A space after every comma and colon, characters beyond ASCII escaped. -/
def spacedAscii : Layout := ⟨", ", ": ", true⟩

/-- A UTF-16 unit as an escape. -/
def unitEscape (n : Nat) : List Char :=
  '\\' :: 'u' :: hex 4 n

/-- One character of a JSON text. -/
def escapedChar (ascii : Bool) (c : Char) : List Char :=
  if c = '"' ∨ c = '\\' then ['\\', c]
  else if c = '\n' then ['\\', 'n']
  else if c = '\r' then ['\\', 'r']
  else if c = '\t' then ['\\', 't']
  else if c = '\x0c' then ['\\', 'f']
  else if c = '\x08' then ['\\', 'b']
  else if c.toNat < 0x20 then unitEscape c.toNat
  else if ascii ∧ 126 < c.toNat then
    if c.toNat < 0x10000 then unitEscape c.toNat
    else
      let n := c.toNat - 0x10000
      unitEscape (0xD800 + n / 0x400) ++ unitEscape (0xDC00 + n % 0x400)
  else [c]

/-- A text as a JSON string. -/
def stringChars (ascii : Bool) (s : List Char) : List Char :=
  '"' :: (s.flatMap (escapedChar ascii) ++ ['"'])

/-- A text as a JSON string. -/
def string (ascii : Bool) (s : String) : String :=
  String.ofList (stringChars ascii s.toList)

/-- A double as a JSON number. -/
def float : Binary64 → String
  | .nan => "NaN"
  | .infinity s => if s then "-Infinity" else "Infinity"
  | x => x.text

/-- The text of a mapping's key, if JSON has one for it. -/
def key? : Value → Option String
  | .text s => some s
  | .float x => some (float x)
  | .bool b => some (if b then "true" else "false")
  | .null => some "null"
  | .int n => some (toString n)
  | _ => none

mutual

/-- The JSON text of a value, if all keys in it have one. -/
def write? (l : Layout) : Value → Option String
  | .null => some "null"
  | .bool b => some (if b then "true" else "false")
  | .int n => some (toString n)
  | .float x => some (float x)
  | .text s => some (string l.ascii s)
  | .list items => (writeItems? l items).map fun r => "[" ++ l.comma.intercalate r ++ "]"
  | .tuple items => (writeItems? l items).map fun r => "[" ++ l.comma.intercalate r ++ "]"
  | .map entries => (writeEntries? l entries).map fun r => "\x7b" ++ l.comma.intercalate r ++ "\x7d"
  | v => some (string l.ascii v.plain)

/-- The JSON texts of a list of values. -/
def writeItems? (l : Layout) : List Value → Option (List String)
  | [] => some []
  | v :: vs =>
    match write? l v, writeItems? l vs with
    | some r, some rs => some (r :: rs)
    | _, _ => none

/-- The JSON texts of the entries of a mapping. -/
def writeEntries? (l : Layout) : List (Value × Value) → Option (List String)
  | [] => some []
  | (k, v) :: es =>
    match key? k, write? l v, writeEntries? l es with
    | some name, some r, some rs => some ((string l.ascii name ++ l.colon ++ r) :: rs)
    | _, _, _ => none

end

end TableAudit.Json
