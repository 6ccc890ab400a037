import TableAudit.Number.Reading
import TableAudit.Text.LowerCase
import TableAudit.Value.Text

/-!
# Durations

A duration is written as numbers with units, such as `2h30m` or `1.5 hours`; a number without a
unit counts milliseconds. Blanks may stand anywhere between the parts, letter case does not
matter, and commas are ignored. The parts are added as doubles and the sum is rounded to
milliseconds, a half going to the even one.
-/

namespace TableAudit.Duration

open TableAudit.Number (Binary64 Form)
open TableAudit.Text (isBlank isDecimalDigit)

/-- What is wrong with a duration. -/
inductive Mistake
  | empty
  | malformed (source : Value)
  | unknownUnit (unit : String) (source : Value)
deriving Inhabited, Repr

/-- The wording of a mistake. -/
def Mistake.text : Mistake → String
  | empty => "empty duration"
  | malformed source => "invalid duration: " ++ source.literal
  | unknownUnit unit source =>
    "unknown duration unit '" ++ unit ++ "' in " ++ source.literal

/-- Why a duration has no milliseconds. -/
inductive Refusal
  | mistake (m : Mistake)
  | fault (f : Fault)
deriving Inhabited, Repr

/-- Milliseconds of a second. -/
def second : Nat := 1000

/-- Milliseconds of a minute. -/
def minute : Nat := 60 * second

/-- Milliseconds of an hour. -/
def hour : Nat := 60 * minute

/-- Milliseconds of a day. -/
def day : Nat := 24 * hour

/-- Milliseconds of a week. -/
def week : Nat := 7 * day

/-- Milliseconds of a year of 365.25 days. -/
def year : Nat := 1461 * day / 4

/-- Milliseconds of a twelfth of a year. -/
def month : Nat := year / 12

/-- The spellings of every unit. -/
def units : List (Nat × List String) := [
  (1, ["", "ms", "msec", "millisecond", "milliseconds"]),
  (second, ["s", "sec", "secs", "second", "seconds"]),
  (minute, ["m", "min", "mins", "minute", "minutes"]),
  (hour, ["h", "hr", "hrs", "hour", "hours"]),
  (day, ["d", "day", "days"]),
  (week, ["w", "wk", "week", "weeks"]),
  (month, ["mo", "month", "months"]),
  (year, ["y", "yr", "year", "years"])]

/-- The milliseconds of a unit. -/
def unit? (name : String) : Option Nat :=
  (units.find? fun u => u.2.contains name).map (·.1)

/-- A number with a unit. -/
structure Part where
  number : Form
  unit : List Char
deriving Repr

/-- The number at the front and the rest: digits with an optional minus sign and optional
decimals, or decimals alone. -/
def number? (cs : List Char) : Option (Form × List Char) :=
  let (negative, body) := match cs with
    | '-' :: rest => (true, rest)
    | _ => (false, cs)
  let (whole, rest) := body.span isDecimalDigit
  let (places, rest') := match rest with
    | '.' :: r => r.span isDecimalDigit
    | _ => ([], rest)
  if whole.isEmpty then
    if negative || places.isEmpty then none else some (⟨false, [], some places, none⟩, rest')
  else if places.isEmpty then some (⟨negative, whole, none, none⟩, rest)
  else some (⟨negative, whole, some places, none⟩, rest')

/-- Whether a character belongs to a unit. -/
def isUnitLetter (c : Char) : Bool :=
  c.isAlpha

/-- The part at the front and the rest. -/
def part? (cs : List Char) : Option (Part × List Char) :=
  (number? cs).map fun (n, rest) =>
    let (unit, rest) := (rest.dropWhile isBlank).span isUnitLetter
    (⟨n, unit⟩, rest)

/-- The sum of the parts in a text, beginning with `total`. `fuel` bounds the number of parts and
blanks. -/
def sumParts (source : Value) : Nat → Binary64 → List Char → Except Mistake Binary64
  | _, total, [] => .ok total
  | 0, _, _ => .error (.malformed source)
  | fuel + 1, total, c :: cs =>
    if isBlank c then sumParts source fuel total cs
    else
      match part? (c :: cs) with
      | none => .error (.malformed source)
      | some (p, rest) =>
        match unit? (String.ofList p.unit) with
        | none => .error (.unknownUnit (String.ofList p.unit) source)
        | some factor =>
          sumParts source fuel (total.add (p.number.double.mul (Binary64.ofInt factor))) rest

/-- The text in which parts are looked for: trimmed, in lower case and without commas. -/
def canonical (s : List Char) : List Char :=
  (Text.lower (Text.trimChars s)).filter (· ≠ ',')

/-- A sum of milliseconds as an integer. -/
def rounded (total : Binary64) : Except Fault Int :=
  match total with
  | .nan => .error .undefinedNumber
  | x =>
    match x.roundEven? with
    | some n => .ok n
    | none => .error .outOfRange

/-- The milliseconds that a text spells. -/
def ofText (source : Value) (s : List Char) : Except Refusal Int :=
  let cs := canonical s
  if cs.isEmpty then .error (.mistake .empty)
  else if cs.all isBlank then .error (.mistake (.malformed source))
  else
    match sumParts source (cs.length + 1) (Binary64.zero false) cs with
    | .error m => .error (.mistake m)
    | .ok total => (rounded total).mapError .fault

/-- The milliseconds that a value stands for: a number without its fraction, or what its text
spells. -/
def ofValue : Value → Except Refusal Int
  | .bool b => .error (.mistake (.malformed (.bool b)))
  | .int n => .ok n
  | .float .nan => .error (.fault .undefinedNumber)
  | .float x =>
    match x.truncate? with
    | some n => .ok n
    | none => .error (.fault .outOfRange)
  | v => ofText v v.plain.toList

end TableAudit.Duration
