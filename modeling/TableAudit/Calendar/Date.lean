/-!
# Calendar dates

Dates of the proleptic Gregorian calendar in the years 1 to 9999, and their numbering by days:
day 1 is the first of January of year 1. Week dates follow the international rule that week 1 is
the week, Monday first, with the year's first Thursday.
-/

namespace TableAudit.Calendar

/-- A day of the calendar. -/
structure Date where
  year : Nat
  month : Nat
  day : Nat
deriving DecidableEq, Repr, Inhabited

/-- Whether a year has a 29th of February. -/
def isLeap (year : Nat) : Bool :=
  year % 4 = 0 && (year % 100 ≠ 0 || year % 400 = 0)

/-- The number of days of a month. -/
def daysInMonth (year month : Nat) : Nat :=
  if month = 2 then if isLeap year then 29 else 28
  else if month = 4 ∨ month = 6 ∨ month = 9 ∨ month = 11 then 30
  else 31

/-- The number of days of a year. -/
def daysInYear (year : Nat) : Nat :=
  if isLeap year then 366 else 365

/-- How many days lie before the first of January of a year. -/
def daysBeforeYear (year : Nat) : Nat :=
  let y := year - 1
  y * 365 + y / 4 - y / 100 + y / 400

/-- How many days of the year lie before the first of a month. -/
def daysBeforeMonth (year : Nat) : Nat → Nat
  | 0 => 0
  | 1 => 0
  | month + 1 => daysBeforeMonth year month + daysInMonth year month

/-- The number of the last day of year 9999. -/
def lastDayNumber : Nat := 3652059

namespace Date

/-- A date of the calendar, if year, month and day name one. -/
def mk? (year month day : Nat) : Option Date :=
  if 1 ≤ year ∧ year ≤ 9999 ∧ 1 ≤ month ∧ month ≤ 12 ∧ 1 ≤ day ∧ day ≤ daysInMonth year month then
    some ⟨year, month, day⟩
  else none

/-- The number of the day, counted from the first of January of year 1. -/
def dayNumber (d : Date) : Nat :=
  daysBeforeYear d.year + daysBeforeMonth d.year d.month + d.day

/-- The month and day of the `n`-th day of a year, searched from a month on. -/
def monthOfDay (year n : Nat) : Nat → Nat → Nat × Nat
  | 0, month => (month, n)
  | fuel + 1, month =>
    if n ≤ daysInMonth year month then (month, n)
    else monthOfDay year (n - daysInMonth year month) fuel (month + 1)

/-- The last year from `y` on, at most `fuel` years later, that begins before day `n` ends. -/
def yearOfDay (n : Nat) : Nat → Nat → Nat
  | 0, y => y
  | fuel + 1, y => if daysBeforeYear (y + 1) < n then yearOfDay n fuel (y + 1) else y

/-- The date with a day number between 1 and the last one. The search for the year starts at the
year in which the day would lie if all years were leap years. -/
def ofDayNumber (n : Nat) : Date :=
  let year := yearOfDay n (n / 100000 + 2) (max (n / 366) 1)
  let m := monthOfDay year (n - daysBeforeYear year) 11 1
  ⟨year, m.1, m.2⟩

/-- The date with a day number, if it is one of the calendar. -/
def ofDayNumber? (n : Int) : Option Date :=
  if 1 ≤ n ∧ n ≤ lastDayNumber then some (ofDayNumber n.toNat) else none

/-- Day of the week, Monday being 0. -/
def weekday (d : Date) : Nat :=
  (d.dayNumber + 6) % 7

/-- The day number of the Monday of week 1 of a year. -/
def weekOneMonday (year : Nat) : Int :=
  let first : Int := daysBeforeYear year + 1
  let dow := ((first + 6) % 7)
  let monday := first - dow
  if 3 < dow then monday + 7 else monday

/-- The date that a year, week and day of the week name. Week 53 exists only in years that begin
on a Thursday, or on a Wednesday if they are leap years. -/
def ofWeek? (year week day : Nat) : Option Date :=
  let firstWeekday := (daysBeforeYear year + 7) % 7
  let long := firstWeekday = 3 || (firstWeekday = 2 && isLeap year)
  if 1 ≤ year ∧ 1 ≤ week ∧ (week ≤ 52 ∨ (week = 53 ∧ long)) ∧ 1 ≤ day ∧ day ≤ 7 then
    ofDayNumber? (weekOneMonday year + ((week - 1) * 7 + (day - 1) : Nat))
  else none

end Date

/-- A number written with at least `width` digits. -/
def padded (width n : Nat) : List Char :=
  let ds := Nat.toDigits 10 n
  List.replicate (width - ds.length) '0' ++ ds

/-- Year, month and day joined by hyphens. -/
def Date.chars (d : Date) : List Char :=
  padded 4 d.year ++ '-' :: padded 2 d.month ++ '-' :: padded 2 d.day

/-- Year, month and day joined by hyphens. -/
def Date.text (d : Date) : String :=
  String.ofList d.chars

end TableAudit.Calendar
