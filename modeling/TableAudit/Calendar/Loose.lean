import TableAudit.Calendar.Moment
import TableAudit.Text.LowerCase

/-!
# Dates as people write them

Dates with the name of the month (`Nov 14 2023`, `14 November 2023`, `14-Nov-2023`), dates in
numbers (`2023/11/14`, `11/14/2023`, the month first unless it cannot be one) and months of a year
(`Jan 2023`, `2023-11`), with an optional day of the week before and an optional time of day after
them. A time may be of the twelve-hour clock; without an offset it counts as universal time. The
time may also stand before the year.
-/

namespace TableAudit.Calendar.Loose

/-- A part of a date text. -/
inductive Token
  | number (digits : Nat) (value : Nat)
  | word (s : String)
  | mark (c : Char)
deriving DecidableEq, Repr

/-- Words that say nothing. -/
def fillers : List String :=
  ["at", "on", "and", "of", "st", "nd", "rd", "th"]

/-- The parts of a text; blanks, commas and words that say nothing separate parts and are left
out. `fuel` bounds their number. -/
def tokens : Nat → List Char → List Token
  | _, [] => []
  | 0, _ => []
  | fuel + 1, c :: cs =>
    if c.isDigit then
      let (ds, rest) := (c :: cs).span (·.isDigit)
      .number ds.length (ds.foldl (fun v d => 10 * v + (d.toNat - 48)) 0) :: tokens fuel rest
    else if c.isAlpha then
      let (ls, rest) := (c :: cs).span (·.isAlpha)
      let w := String.ofList (ls.map Char.toLower)
      if fillers.contains w then tokens fuel rest else .word w :: tokens fuel rest
    else if c == ' ' || c == '\t' || c == ',' then tokens fuel cs
    else .mark c :: tokens fuel cs

/-- The months by their names. -/
def months : List (String × String) := [
  ("jan", "january"), ("feb", "february"), ("mar", "march"), ("apr", "april"), ("may", "may"),
  ("jun", "june"), ("jul", "july"), ("aug", "august"), ("sep", "september"), ("oct", "october"),
  ("nov", "november"), ("dec", "december")]

/-- The number of a month's name. -/
def month? (w : String) : Option Nat :=
  ((months.findIdx? fun m => m.1 == w || m.2 == w || (w == "sept" && m.1 == "sep")).map (· + 1))

/-- The days of the week by their names. -/
def weekdays : List (String × String) := [
  ("mon", "monday"), ("tue", "tuesday"), ("wed", "wednesday"), ("thu", "thursday"),
  ("fri", "friday"), ("sat", "saturday"), ("sun", "sunday")]

/-- The parts after a day of the week. -/
def afterWeekday : List Token → List Token
  | .word w :: ts => if weekdays.any (fun d => d.1 == w || d.2 == w) then ts else .word w :: ts
  | ts => ts

/-- Hour on the full clock of an hour on the twelve-hour clock. -/
def fullHour? (hour : Nat) (afternoon : Bool) : Option Nat :=
  if 1 ≤ hour ∧ hour ≤ 12 then some (hour % 12 + if afternoon then 12 else 0) else none

/-- An offset in microseconds from hours and minutes. -/
def offsetOf (negative : Bool) (hours minutes : Nat) : Int :=
  let size : Int := ((hours * 60 + minutes) * 60 * second : Nat)
  if negative then -size else size

/-- An offset at the end of a text, zero where there is none. -/
def offset? : List Token → Option Int
  | [] => some 0
  | [.word "gmt"] => some 0
  | [.word "utc"] => some 0
  | [.word "z"] => some 0
  | [.mark c, .number 2 h, .mark ':', .number 2 m] =>
    if c == '+' || c == '-' then some (offsetOf (c == '-') h m) else none
  | [.mark c, .number 4 n] =>
    if c == '+' || c == '-' then some (offsetOf (c == '-') (n / 100) (n % 100)) else none
  | _ => none

/-- A time of day in microseconds and the parts after it. -/
structure TimeOfDay where
  micros : Nat
  rest : List Token

/-- Microseconds of the day, if the numbers name a time of day. -/
def micros? (hour minute sec frac : Nat) : Option Nat :=
  if hour < 24 ∧ minute < 60 ∧ sec < 60 then
    some ((hour * 3600 + minute * 60 + sec) * second + frac)
  else none

/-- Apply the half of the day that may follow an hour. -/
def halfDay? (hour : Nat) : List Token → Option (Nat × List Token)
  | .word "am" :: ts => (fullHour? hour false).map (·, ts)
  | .word "pm" :: ts => (fullHour? hour true).map (·, ts)
  | ts => some (hour, ts)

/-- The first six digits of a fraction as microseconds. -/
def fractionMicros (digits value : Nat) : Nat :=
  if digits ≤ 6 then value * Nat.pow 10 (6 - digits) else value / Nat.pow 10 (digits - 6)

/-- The time of day at the front. -/
def time? (ts : List Token) : Option TimeOfDay :=
  let finish (h m s frac : Nat) (rest : List Token) : Option TimeOfDay := do
    let (h, rest) ← halfDay? h rest
    let micros ← micros? h m s frac
    some ⟨micros, rest⟩
  match ts with
  | .number _ h :: .mark ':' :: .number _ m :: .mark ':' :: .number _ s :: .mark '.' ::
      .number k f :: rest => finish h m s (fractionMicros k f) rest
  | .number _ h :: .mark ':' :: .number _ m :: .mark ':' :: .number _ s :: rest =>
    finish h m s 0 rest
  | .number _ h :: .mark ':' :: .number _ m :: rest => finish h m 0 0 rest
  | .number _ h :: .word w :: rest =>
    if w == "am" || w == "pm" then finish h 0 0 0 (.word w :: rest) else none
  | _ => none

/-- A mark between the numbers of a date. -/
def isDateMark (c : Char) : Bool :=
  c == '/' || c == '-' || c == '.'

/-- Day and month of two numbers of which the first is the month unless it cannot be one. -/
def dayMonth (a b : Nat) : Nat × Nat :=
  if 12 < a then (a, b) else (b, a)

/-- The date at the front, where the year stands with it, and the parts after it. -/
def date? : List Token → Option (Date × List Token)
  | .word w :: .number k d :: .number 4 y :: ts =>
    if k ≤ 2 then do (← Date.mk? y (← month? w) d, ts) else none
  | .number k d :: .word w :: .number 4 y :: ts =>
    if k ≤ 2 then do (← Date.mk? y (← month? w) d, ts) else none
  | .number 4 y :: .word w :: .number k d :: ts =>
    if k ≤ 2 then do (← Date.mk? y (← month? w) d, ts) else none
  | .number k d :: .mark a :: .word w :: .mark b :: .number 4 y :: ts =>
    if k ≤ 2 && isDateMark a && a == b then do (← Date.mk? y (← month? w) d, ts) else none
  | .number 4 y :: .mark a :: .word w :: .mark b :: .number k d :: ts =>
    if k ≤ 2 && isDateMark a && a == b then do (← Date.mk? y (← month? w) d, ts) else none
  | .number 4 y :: .mark a :: .number j m :: .mark b :: .number k d :: ts =>
    if j ≤ 2 && k ≤ 2 && isDateMark a && a == b then do (← Date.mk? y m d, ts) else none
  | .number j x :: .mark a :: .number k z :: .mark b :: .number 4 y :: ts =>
    if j ≤ 2 && k ≤ 2 && isDateMark a && a == b then
      let (d, m) := dayMonth x z
      do (← Date.mk? y m d, ts)
    else none
  | .word w :: .number 4 y :: ts => do (← Date.mk? y (← month? w) 1, ts)
  | .number 4 y :: .word w :: ts => do (← Date.mk? y (← month? w) 1, ts)
  | .number 4 y :: .mark a :: .number k m :: ts =>
    if k ≤ 2 && isDateMark a then do (← Date.mk? y m 1, ts) else none
  | .number k m :: .mark a :: .number 4 y :: ts =>
    if k ≤ 2 && isDateMark a then do (← Date.mk? y m 1, ts) else none
  | _ => none

/-- The parts after a letter that may stand between date and time. -/
def afterDate : List Token → List Token
  | .word "t" :: ts => ts
  | ts => ts

/-- A date whose year stands after the time of day. -/
def yearLast? : List Token → Option (Date × Nat × List Token)
  | .word w :: .number _ d :: ts => do
    let t ← time? ts
    match t.rest with
    | .number 4 y :: rest => do (← Date.mk? y (← month? w) d, t.micros, rest)
    | .word "gmt" :: .number 4 y :: rest => do (← Date.mk? y (← month? w) d, t.micros, rest)
    | .word "utc" :: .number 4 y :: rest => do (← Date.mk? y (← month? w) d, t.micros, rest)
    | _ => none
  | _ => none

/-- Date, time of day and the parts after them. -/
def clock? (ts : List Token) : Option (Date × Nat × List Token) :=
  match date? ts with
  | some (date, rest) =>
    match time? (afterDate rest) with
    | some t => some (date, t.micros, t.rest)
    | none => some (date, 0, rest)
  | none => yearLast? ts

/-- The moment in universal time that a date text names. -/
def moment? (s : String) : Option Moment := do
  let cs := s.toList
  let (date, micros, rest) ← clock? (afterWeekday (tokens (cs.length + 1) cs))
  let offset ← offset? rest
  let instant ← (⟨date, micros, some offset⟩ : Moment).instant?
  Moment.ofInstant? instant

end TableAudit.Calendar.Loose
