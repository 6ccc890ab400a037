import TableAudit.Calendar.Date
import TableAudit.Number.Binary64

/-!
# Moments

A moment is a calendar date, a time of day in microseconds, and the offset of the local clock
from universal time if it is known. Moments with an offset name an instant; instants are counted
in microseconds from the epoch 1970-01-01.
-/

namespace TableAudit.Calendar

open TableAudit.Number (Binary64)

/-- A date with a time of day and, for a moment of a known clock, that clock's offset from
universal time in microseconds. -/
structure Moment where
  date : Date
  micros : Nat
  offset : Option Int
deriving DecidableEq, Repr, Inhabited

/-- Microseconds of a second. -/
def second : Nat := 1000000

/-- Microseconds of a day. -/
def day : Nat := 86400 * second

/-- The day number of 1970-01-01. -/
def epochDay : Nat := 719163

namespace Moment

/-- Midnight of a date in universal time. -/
def midnight (d : Date) : Moment :=
  ⟨d, 0, some 0⟩

/-- A moment without an offset is taken as universal time. -/
def assumeUniversal (m : Moment) : Moment :=
  { m with offset := some (m.offset.getD 0) }

/-- Microseconds on the local clock since the epoch. -/
def localMicros (m : Moment) : Int :=
  ((m.date.dayNumber : Int) - epochDay) * day + m.micros

/-- The instant, for a moment with an offset. -/
def instant? (m : Moment) : Option Int :=
  m.offset.map (m.localMicros - ·)

/-- The moment with given microseconds on a local clock, within the years 1 to 9999. -/
def ofLocalMicros? (t : Int) (offset : Option Int) : Option Moment :=
  (Date.ofDayNumber? (t.fdiv day + epochDay)).map fun d => ⟨d, (t.fmod day).toNat, offset⟩

/-- The moment in universal time of an instant, within the years 1 to 9999. -/
def ofInstant? (t : Int) : Option Moment :=
  ofLocalMicros? t (some 0)

/-- The same clock, later by some microseconds. -/
def later? (m : Moment) (micros : Int) : Option Moment :=
  ofLocalMicros? (m.localMicros + micros) m.offset

/-- Whether one moment is after another. Moments of which only one has an offset are not
comparable. -/
def after? (a b : Moment) : Option Bool :=
  match a.instant?, b.instant? with
  | some s, some t => some (t < s)
  | none, none => some (b.localMicros < a.localMicros)
  | _, _ => none

/-- The instant of a whole number of seconds since the epoch. -/
def ofEpochSeconds? (n : Int) : Option Moment :=
  ofInstant? (n * second)

/-- The instant of a number of seconds since the epoch. The fraction is scaled to microseconds
as a double and then rounded, a half going to the even one. -/
def ofEpoch? (x : Binary64) : Option Moment :=
  match x.truncate? with
  | none => none
  | some whole =>
    let fraction := x.sub (Binary64.ofInt whole)
    match (fraction.mul (Binary64.ofInt second)).roundEven? with
    | none => none
    | some micros => ofInstant? (whole * second + micros)

/-- Hour, minute and second. -/
def clock (m : Moment) : Nat × Nat × Nat :=
  let s := m.micros / second
  (s / 3600, s / 60 % 60, s % 60)

/-- Hours, minutes and seconds joined by colons. -/
def clockChars (seconds : Nat) : List Char :=
  padded 2 (seconds / 3600) ++ ':' :: padded 2 (seconds / 60 % 60) ++ ':' :: padded 2 (seconds % 60)

/-- An offset as a sign with hours and minutes, then seconds and their fraction where they are
not zero. -/
def offsetChars (o : Int) : List Char :=
  let t := o.natAbs
  let s := t / second
  let hm := padded 2 (s / 3600) ++ ':' :: padded 2 (s / 60 % 60)
  let sec := if t % (60 * second) = 0 then [] else ':' :: padded 2 (s % 60)
  let frac := if t % second = 0 then [] else '.' :: padded 6 (t % second)
  (if o < 0 then '-' else '+') :: (hm ++ sec ++ frac)

/-- Date, separator, time of day with six decimals where the fraction is not zero, and offset. -/
def chars (m : Moment) (separator : Char) : List Char :=
  let frac := if m.micros % second = 0 then [] else '.' :: padded 6 (m.micros % second)
  m.date.chars ++ separator :: clockChars (m.micros / second) ++ frac ++
    (m.offset.map offsetChars).getD []

/-- The standard text, with a `T` before the time of day. -/
def isoText (m : Moment) : String :=
  String.ofList (m.chars 'T')

/-- The text with a space before the time of day. -/
def spacedText (m : Moment) : String :=
  String.ofList (m.chars ' ')

/-- A moment in universal time, with a letter for it. -/
def zuluText (m : Moment) : String :=
  ({ m with offset := none } : Moment).isoText ++ "Z"

/-- The text of a moment in universal time, cut to milliseconds and closed by a `Z`. -/
def millisText (m : Moment) : String :=
  String.ofList (m.date.chars ++ 'T' :: clockChars (m.micros / second) ++
    '.' :: padded 3 (m.micros % second / 1000) ++ ['Z'])

end Moment

end TableAudit.Calendar
