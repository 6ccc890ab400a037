import TableAudit.Calendar.Iso
import TableAudit.Calendar.Loose
import TableAudit.Number.Reading
import TableAudit.Rule.Basic

/-!
# Reading cells for their rules

Before a cell is checked its value is read as what the rule speaks of, where it looks like that:
texts as numbers, as truth values, or as moments, and numbers as seconds or milliseconds since the
epoch if the rule asks for conversion. A value that looks like nothing of the kind stays as it is,
and the check of its kind reports it.
-/

namespace TableAudit.Coercion

open TableAudit.Number (Binary64 Form)
open TableAudit.Calendar (Moment)

/-- Numbers of smaller magnitude count seconds since the epoch, others milliseconds. -/
def secondsBound : Number := .int 100000000000

/-- The moment of a number of seconds. -/
def ofSeconds? : Number → Option Moment
  | .int n => Moment.ofEpochSeconds? n
  | .float x => Moment.ofEpoch? x

/-- The moment of a number of seconds or milliseconds since the epoch, if the calendar has it. An
integer whose thousandth is no double is out of range. -/
def ofEpoch (n : Number) : Except Fault (Option Moment) :=
  if n.abs.lt secondsBound then .ok (ofSeconds? n)
  else
    match n.divNat? 1000 with
    | none => .error .outOfRange
    | some seconds => .ok (Moment.ofEpoch? seconds)

/-- A moment, or the value it was looked for in. -/
def momentOr (v : Value) : Option Moment → Value
  | some m => .moment m
  | none => v

/-- A text read as a moment. -/
def dateOfText (convert : Bool) (s : String) : Except Fault Value :=
  let trimmed := Text.trim s
  if trimmed.isEmpty then .ok (.text s)
  else
    match Number.form? trimmed.toList with
    | some f =>
      if convert then (ofEpoch (.float f.double)).map (momentOr (.text s)) else .ok (.text s)
    | none =>
      match Calendar.Iso.moment? trimmed with
      | some m => .ok (.moment m.assumeUniversal)
      | none =>
        if convert then .ok (momentOr (.text s) (Calendar.Loose.moment? trimmed))
        else .ok (.text s)

/-- A value read as a moment. -/
def date (convert : Bool) : Value → Except Fault Value
  | .stamp m => .ok (.moment m.assumeUniversal)
  | .moment m => .ok (.moment m.assumeUniversal)
  | .date d => .ok (.moment (Moment.midnight d))
  | .int n => if convert then (ofEpoch (.int n)).map (momentOr (.int n)) else .ok (.int n)
  | .float x => if convert then (ofEpoch (.float x)).map (momentOr (.float x)) else .ok (.float x)
  | .text s => dateOfText convert s
  | v => .ok v

/-- A value read as a number. -/
def number : Value → Except Fault Value
  | .text s =>
    match Number.form? (Text.trimChars s.toList) with
    | none => .ok (.text s)
    | some f => if f.isInteger then f.integer.map .int else .ok (.float f.double)
  | v => .ok v

/-- The words for true. -/
def trueWords (convert : Bool) : List String :=
  if convert then ["true", "1", "yes", "on"] else ["true"]

/-- The words for false. -/
def falseWords (convert : Bool) : List String :=
  if convert then ["false", "0", "no", "off"] else ["false"]

/-- A value read as a truth value. -/
def boolean (convert : Bool) : Value → Value
  | .text s =>
    let low := String.ofList (Text.lower (Text.trimChars s.toList))
    if (trueWords convert).contains low then .bool true
    else if (falseWords convert).contains low then .bool false
    else .text s
  | v => v

/-- A value read as a choice. -/
def choice : Value → Value
  | .text s => .text s
  | v => .text v.plain

end TableAudit.Coercion

namespace TableAudit

/-- A value read as what a rule speaks of. -/
def Rule.coerce : Rule → Value → Except Fault Value
  | .number _, v => Coercion.number v
  | .date r, v => Coercion.date r.convert v
  | .boolean r, v => .ok (Coercion.boolean r.convert v)
  | .choice _, v => .ok (Coercion.choice v)
  | .text _, v => .ok v
  | .email _, v => .ok v

end TableAudit
