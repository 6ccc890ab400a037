import TableAudit.Calendar.Moment

/-!
# Standard date texts

Reading of calendar dates (`2024-06-01`, `20240601`) and week dates (`2024-W22-6`, `2024W226`,
`2024-W22`), optionally followed by one separating character, a time of day and an offset. The
time of day has two-digit hours, minutes and seconds, all or none of them separated by colons,
and a fraction of which six digits count.
-/

namespace TableAudit.Calendar.Iso

/-- The number spelled by exactly `n` ASCII digits at the front, and what follows them. -/
def digits? : Nat → List Char → Option (Nat × List Char)
  | n, cs =>
    let ds := cs.take n
    if ds.length = n ∧ ds.all (·.isDigit) then
      some (ds.foldl (fun v c => 10 * v + (c.toNat - 48)) 0, cs.drop n)
    else none

/-- How many digits stand at the front. -/
def digitRun (cs : List Char) : Nat :=
  (cs.takeWhile (·.isDigit)).length

/-- How many characters the date takes; what follows is the separator. In a week date with a
hyphen after the week, a digit two places on makes that hyphen the separator. Without hyphens, a
day of the week is present when the digits after the week are even in number. -/
def dateLength (cs : List Char) : Nat :=
  if cs.length = 7 then 7
  else
    match cs[4]?, cs[5]? with
    | some '-', some 'W' =>
      if cs[8]? = some '-' then
        if (cs[10]?.map (·.isDigit)).getD false then 8 else 10
      else 8
    | some '-', _ => 10
    | some 'W', _ =>
      let pos := 7 + digitRun (cs.drop 7)
      if pos < 9 then pos else if pos % 2 = 0 then 7 else 8
    | _, _ => 8

/-- A calendar date or week date that fills the whole text. -/
def date? (cs : List Char) : Option Date := do
  let (year, rest) ← digits? 4 cs
  let hyphens := rest.head? = some '-'
  let rest := if hyphens then rest.drop 1 else rest
  let hyphen? (r : List Char) : Option (List Char) :=
    if hyphens then if r.head? = some '-' then some (r.drop 1) else none else some r
  if rest.head? = some 'W' then
    let (week, rest) ← digits? 2 (rest.drop 1)
    if rest.isEmpty then Date.ofWeek? year week 1
    else
      let rest ← hyphen? rest
      let (day, rest) ← digits? 1 rest
      if rest.isEmpty then Date.ofWeek? year week day else none
  else
    let (month, rest) ← digits? 2 rest
    let rest ← hyphen? rest
    let (day, rest) ← digits? 2 rest
    if rest.isEmpty then Date.mk? year month day else none

/-- A clock reading: hours, minutes, seconds and microseconds, and whether characters were left
over after it. -/
structure ClockReading where
  hour : Nat
  minute : Nat
  second : Nat
  micros : Nat
  leftOver : Bool

/-- The fraction of a second: of its digits the first six count. -/
def fraction? (cs : List Char) (followed : Bool) : Option (Nat × Bool) := do
  let n := min 6 cs.length
  let (v, rest) ← digits? n cs
  some (v * Nat.pow 10 (6 - n), followed || !(rest.dropWhile (·.isDigit)).isEmpty)

/-- Two-digit components, at most three of them, then a fraction. `followed` tells whether an
offset follows the text; a single ASCII character may be left over before it. -/
def clock? (followed : Bool) : Nat → Bool → List Nat → List Char → Option (List Nat × Nat × Bool)
  | 0, _, got, cs => (fraction? cs followed).map fun f => (got, f)
  | n + 1, colons, got, cs => do
    let (v, rest) ← digits? 2 cs
    let got := got ++ [v]
    match rest with
    | [] => some (got, 0, followed)
    | [c] => if c.toNat < 128 then some (got, 0, true) else none
    | c :: more =>
      let colons := if got.length = 1 then c == ':' else colons
      if colons && c == ':' then clock? followed n colons got more
      else if c == '.' || c == ',' then (fraction? more followed).map fun f => (got, f)
      else if !colons then clock? followed n colons got rest
      else none

/-- Read hours, minutes, seconds and fraction. -/
def reading? (followed : Bool) (cs : List Char) : Option ClockReading :=
  (clock? followed 3 true [] cs).map fun r =>
    ⟨r.1.getD 0 0, r.1.getD 1 0, r.1.getD 2 0, r.2.1, r.2.2⟩

/-- A time of day with an optional offset: microseconds of the day and offset. Hours go to 23,
minutes and seconds to 59, and an offset is shorter than a day. -/
def time? (cs : List Char) : Option (Nat × Option Int) := do
  let isMark (c : Char) : Bool := c == '+' || c == '-' || c == 'Z'
  let body := cs.takeWhile (!isMark ·)
  let zone := cs.dropWhile (!isMark ·)
  let t ← reading? (!zone.isEmpty) body
  let offset ← match zone with
    | [] => if t.leftOver then none else some none
    | 'Z' :: rest => if rest.isEmpty then some (some 0) else none
    | mark :: rest => do
      let o ← reading? false rest
      let whole := o.hour * 3600 + o.minute * 60 + o.second
      let size : Int := if whole = 0 then 0 else whole * second + o.micros
      if o.leftOver || (day : Int) ≤ size then none
      else some (some (if mark == '-' then -size else size))
  if t.hour < 24 ∧ t.minute < 60 ∧ t.second < 60 then
    some ((t.hour * 3600 + t.minute * 60 + t.second) * second + t.micros, offset)
  else none

/-- The moment that a standard date text names. -/
def moment? (s : String) : Option Moment := do
  let cs := s.toList
  if cs.length < 7 then none
  else
    let n := dateLength cs
    let date ← date? (cs.take n)
    match cs.drop n with
    | [] => some ⟨date, 0, none⟩
    | _separator :: rest =>
      let (micros, offset) ← time? rest
      some ⟨date, micros, offset⟩

end TableAudit.Calendar.Iso
