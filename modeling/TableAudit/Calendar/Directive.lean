import TableAudit.Calendar.Moment

/-!
# Directives for moments

A text may have directives, a percent sign and a letter, for the parts of a moment: its date, its
time of day, its offset, and numbers of the day and the week in the year. Some directives stand
for texts with directives of their own. What is no directive stands for itself.
-/

namespace TableAudit.Calendar.Directive

/-- The names of the months. -/
def monthNames : List String :=
  ["January", "February", "March", "April", "May", "June", "July", "August", "September",
    "October", "November", "December"]

/-- The names of the days of the week, Monday first. -/
def weekdayNames : List String :=
  ["Monday", "Tuesday", "Wednesday", "Thursday", "Friday", "Saturday", "Sunday"]

/-- The name at a place, empty beyond the end. -/
def nameAt (names : List String) (i : Nat) : List Char :=
  ((names[i]?).getD "").toList

/-- The number of the day in its year, from 1. -/
def dayOfYear (d : Date) : Nat :=
  daysBeforeMonth d.year d.month + d.day

/-- The number of the week in the year, where week 1 begins with the first day that is `first`
days after Monday. -/
def weekOfYear (first : Nat) (d : Date) : Nat :=
  (dayOfYear d + 6 - (d.weekday + 7 - first) % 7) / 7

/-- The Thursday of the week that begins on Monday; it tells the week's year. -/
def thursday (d : Date) : Date :=
  (Date.ofDayNumber? ((d.dayNumber : Int) - d.weekday + 3)).getD d

/-- A number of at least two places, filled with blanks. -/
def blankPadded (n : Nat) : List Char :=
  if n < 10 then ' ' :: Nat.toDigits 10 n else Nat.toDigits 10 n

/-- The hour on the twelve-hour clock. -/
def halfHour (h : Nat) : Nat :=
  if h % 12 = 0 then 12 else h % 12

/-- An offset without colons, nothing where it is not known. -/
def offsetDigits (o : Option Int) : List Char :=
  ((o.map Moment.offsetChars).getD []).filter (· ≠ ':')

/-- The name of a clock, nothing where its offset is not known. -/
def zoneName : Option Int → List Char
  | none => []
  | some o => "UTC".toList ++ if o = 0 then [] else Moment.offsetChars o

/-- The part of a date that a letter stands for. -/
def ofDate? (d : Date) : Char → Option (List Char)
  | 'Y' => some (Nat.toDigits 10 d.year)
  | 'y' => some (padded 2 (d.year % 100))
  | 'C' => some (Nat.toDigits 10 (d.year / 100))
  | 'm' => some (padded 2 d.month)
  | 'd' => some (padded 2 d.day)
  | 'e' => some (blankPadded d.day)
  | 'B' => some (nameAt monthNames (d.month - 1))
  | 'b' => some ((nameAt monthNames (d.month - 1)).take 3)
  | 'h' => some ((nameAt monthNames (d.month - 1)).take 3)
  | 'A' => some (nameAt weekdayNames d.weekday)
  | 'a' => some ((nameAt weekdayNames d.weekday).take 3)
  | 'u' => some (Nat.toDigits 10 (d.weekday + 1))
  | 'w' => some (Nat.toDigits 10 ((d.weekday + 1) % 7))
  | 'j' => some (padded 3 (dayOfYear d))
  | 'U' => some (padded 2 (weekOfYear 6 d))
  | 'W' => some (padded 2 (weekOfYear 0 d))
  | 'V' => some (padded 2 ((dayOfYear (thursday d) + 6) / 7))
  | 'G' => some (Nat.toDigits 10 (thursday d).year)
  | 'g' => some (padded 2 ((thursday d).year % 100))
  | _ => none

/-- The part of a time of day or of an offset that a letter stands for. -/
def ofClock? (m : Moment) (letter : Char) : Option (List Char) :=
  let (h, min, s) := m.clock
  match letter with
  | 'H' => some (padded 2 h)
  | 'k' => some (blankPadded h)
  | 'I' => some (padded 2 (halfHour h))
  | 'l' => some (blankPadded (halfHour h))
  | 'M' => some (padded 2 min)
  | 'S' => some (padded 2 s)
  | 'f' => some (padded 6 (m.micros % second))
  | 'p' => some (if h < 12 then "AM".toList else "PM".toList)
  | 'P' => some (if h < 12 then "am".toList else "pm".toList)
  | 'z' => some (offsetDigits m.offset)
  | 'Z' => some (zoneName m.offset)
  | _ => none

/-- What a letter stands for. -/
def simple? (m : Moment) (letter : Char) : Option (List Char) :=
  match letter with
  | '%' => some ['%']
  | 'n' => some ['\n']
  | 't' => some ['\t']
  | c => (ofDate? m.date c).or (ofClock? m c)

/-- The directives that a letter abbreviates. -/
def expansion? : Char → Option String
  | 'c' => some "%a %b %e %H:%M:%S %Y"
  | 'x' => some "%m/%d/%y"
  | 'D' => some "%m/%d/%y"
  | 'X' => some "%H:%M:%S"
  | 'T' => some "%H:%M:%S"
  | 'R' => some "%H:%M"
  | 'r' => some "%I:%M:%S %p"
  | 'F' => some "%Y-%m-%d"
  | _ => none

/-- Write a text with directives, given what letters stand for. -/
def fill (meaning : Char → Option (List Char)) : List Char → List Char
  | '%' :: c :: cs => (meaning c).getD ['%', c] ++ fill meaning cs
  | c :: cs => c :: fill meaning cs
  | [] => []

/-- Write a text with directives for a moment. -/
def write (m : Moment) (cs : List Char) : List Char :=
  fill (fun c => match expansion? c with
    | some e => some (fill (simple? m) e.toList)
    | none => simple? m c) cs

end TableAudit.Calendar.Directive
