import TableAudit.Value.Basic
import TableAudit.Number.Reading
import TableAudit.Number.Shortest
import TableAudit.Text.Quoted
import TableAudit.Text.Search

/-!
# Texts of values

Every value has a literal, as it is shown inside collections and in messages, and a plain text,
which differs from the literal for texts and moments only. It is not written if an integer in it has
more digits than texts of integers may have.
-/

namespace TableAudit.Value

open TableAudit.Calendar (Moment)
open TableAudit.Text (quoted quotedBytes joinWith)

/-- The literal of an offset from universal time, kept as whole days, seconds and microseconds
with only the days negative. -/
def offsetLiteral (o : Int) : String :=
  if o = 0 then "datetime.timezone.utc"
  else
    let days := o.fdiv Calendar.day
    let rest := (o.fmod Calendar.day).toNat
    let part (name : String) (n : Int) : List String :=
      if n = 0 then [] else [name ++ "=" ++ toString n]
    "datetime.timezone(datetime.timedelta(" ++
      joinWith ", " (part "days" days ++ part "seconds" (rest / Calendar.second : Nat) ++
        part "microseconds" (rest % Calendar.second : Nat)) ++ "))"

/-- The literal of a moment; seconds and microseconds are left out where they are zero to the
end. -/
def momentLiteral (m : Moment) : String :=
  let (h, min, s) := m.clock
  let us := m.micros % Calendar.second
  let tail := if us ≠ 0 then [s, us] else if s ≠ 0 then [s] else []
  let numbers := [m.date.year, m.date.month, m.date.day, h, min] ++ tail
  let zone := (m.offset.map fun o => ["tzinfo=" ++ offsetLiteral o]).getD []
  "datetime.datetime(" ++ joinWith ", " (numbers.map toString ++ zone) ++ ")"

/-- The literal of a table library's moment. -/
def stampLiteral (m : Moment) : String :=
  let zone := match m.offset with
    | none => ""
    | some 0 => ", tz='UTC'"
    | some o => ", tz='UTC" ++ String.ofList (Moment.offsetChars o) ++ "'"
  let spaced := String.ofList (({ m with offset := none } : Moment).chars ' ')
  let offset := String.ofList
    (((m.offset.map Moment.offsetChars).getD []).filter (· ≠ ':'))
  "Timestamp('" ++ spaced ++ offset ++ "'" ++ zone ++ ")"

/-- Items between brackets. -/
def bracketed (opening closing : String) (items : List String) : String :=
  opening ++ joinWith ", " items ++ closing

mutual

/-- The literal of a value. -/
def literal : Value → String
  | null => "None"
  | bool b => if b then "True" else "False"
  | int n => toString n
  | float x => x.text
  | text s => quoted s
  | bytes b => quotedBytes b
  | date d => "datetime.date(" ++ joinWith ", " ([d.year, d.month, d.day].map toString) ++ ")"
  | moment m => momentLiteral m
  | stamp m => stampLiteral m
  | noStamp => "NaT"
  | list items => bracketed "[" "]" (literals items)
  | tuple [item] => "(" ++ literal item ++ ",)"
  | tuple items => bracketed "(" ")" (literals items)
  | map entries => bracketed "\x7b" "\x7d" (entryLiterals entries)
  | record _ => "<object>"

/-- The literals of a list of values. -/
def literals : List Value → List String
  | [] => []
  | v :: vs => literal v :: literals vs

/-- The literals of the entries of a mapping. -/
def entryLiterals : List (Value × Value) → List String
  | [] => []
  | (k, v) :: es => (literal k ++ ": " ++ literal v) :: entryLiterals es

end

/-- The plain text of a value. -/
def plain : Value → String
  | text s => s
  | date d => d.text
  | moment m => m.spacedText
  | stamp m => m.spacedText
  | v => v.literal

mutual

/-- Whether every integer in the literal of a value has few enough digits to be written. -/
def isWritable : Value → Bool
  | int n => (Nat.toDigits 10 n.natAbs).length ≤ Number.digitLimit
  | list items => allWritable items
  | tuple items => allWritable items
  | map entries => entriesWritable entries
  | _ => true

/-- Whether all of a list of values can be written. -/
def allWritable : List Value → Bool
  | [] => true
  | v :: vs => isWritable v && allWritable vs

/-- Whether the keys and values of a mapping can be written. -/
def entriesWritable : List (Value × Value) → Bool
  | [] => true
  | (k, v) :: es => isWritable k && isWritable v && entriesWritable es

end

/-- The plain text of a value, if it can be written. -/
def written (v : Value) : Except Fault String :=
  if v.isWritable then .ok v.plain else .error .digitLimit

end TableAudit.Value
