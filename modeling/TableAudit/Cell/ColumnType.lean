import TableAudit.Number.Reading
import TableAudit.Value.Basic

/-!
# Column types

The kinds of columns a table has, each with its number and its name. A code that names no type,
or is no integer at all, stands for the unknown type.
-/

namespace TableAudit

/-- The kind of a column. -/
inductive ColumnType
  | unknown
  | text
  | number
  | singleSelect
  | multiSelect
  | dateTime
  | checkbox
  | user
  | phone
  | url
  | attachment
  | singleLink
  | lookup
  | formula
  | duplexLink
  | location
  | groupChat
  | createdTime
  | modifiedTime
  | createdUser
  | modifiedUser
  | autoNumber
deriving DecidableEq, Repr, Inhabited

namespace ColumnType

/-- All types with their codes and names. -/
def table : List (ColumnType × Nat × String) :=
  [(unknown, 0, "UNKNOWN"), (text, 1, "TEXT"), (number, 2, "NUMBER"),
    (singleSelect, 3, "SINGLE_SELECT"), (multiSelect, 4, "MULTI_SELECT"), (dateTime, 5, "DATETIME"),
    (checkbox, 7, "CHECKBOX"), (user, 11, "USER"), (phone, 13, "PHONE"), (url, 15, "URL"),
    (attachment, 17, "ATTACHMENT"), (singleLink, 18, "SINGLE_LINK"), (lookup, 19, "LOOKUP"),
    (formula, 20, "FORMULA"), (duplexLink, 21, "DUPLEX_LINK"), (location, 22, "LOCATION"),
    (groupChat, 23, "GROUP_CHAT"), (createdTime, 1001, "CREATED_TIME"),
    (modifiedTime, 1002, "MODIFIED_TIME"), (createdUser, 1003, "CREATED_USER"),
    (modifiedUser, 1004, "MODIFIED_USER"), (autoNumber, 1005, "AUTO_NUMBER")]

/-- The number of a type. -/
def code (t : ColumnType) : Nat :=
  ((table.lookup t).map (·.1)).getD 0

/-- The name of a type. -/
def name (t : ColumnType) : String :=
  ((table.lookup t).map (·.2)).getD ""

/-- The type with a number, or the unknown type. -/
def ofInt (n : Int) : ColumnType :=
  ((table.find? fun r => (r.2.1 : Int) = n).map (·.1)).getD unknown

/-- The integer that a code stands for: a number without its fraction, or the integer that a text
or bytes spell. -/
def codeInt? : Value → Except Fault Int
  | .bool b => .ok (Value.ofBool b)
  | .int n => .ok n
  | .float .nan => .error .undefinedNumber
  | .float x =>
    match x.truncate? with
    | some n => .ok n
    | none => .error .outOfRange
  | .text s => Number.readInteger s.toList
  | .bytes b =>
    if b.all (· < 128) then Number.readInteger (b.map fun c => Char.ofNat c.toNat)
    else .error .malformed
  | _ => .error .wrongKind

/-- The type that a code stands for. Only an infinite code has none. -/
def ofCode (v : Value) : Except Fault ColumnType :=
  match codeInt? v with
  | .ok n => .ok (ofInt n)
  | .error .outOfRange => .error .outOfRange
  | .error _ => .ok unknown

end ColumnType

end TableAudit
