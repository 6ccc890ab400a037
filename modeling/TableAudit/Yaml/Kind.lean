import TableAudit.Calendar.Moment
import TableAudit.Json.Read
import TableAudit.Number.Reading
import TableAudit.Value.Basic
import TableAudit.Yaml.Cursor

/-!
# Kinds of texts

A plain text is more than a text if it has the form of a number, a date, a word for a truth value
or for nothing. A tag may ask for a kind as well. Numbers may have underscores, integers may be
written in base two, eight, ten or sixteen or in sixties, and numbers with a fraction need a point.
-/

namespace TableAudit.Yaml

open TableAudit.Number (Binary64)
open TableAudit.Calendar (Date Moment)

/-- What a node is taken for. -/
inductive Kind
  | nothing
  | bool
  | int
  | float
  | time
  | text
  /-- The key whose value is merged into its mapping. -/
  | merge
  /-- The key of a default, which is an ordinary text as a key and nothing else elsewhere. -/
  | default
  | sequence
  | mapping
  | unknown
deriving DecidableEq, Repr, Inhabited

/-! ## Words -/

/-- The words for truth values, in lower case. -/
def truthWords : List (String × Bool) :=
  [("yes", true), ("no", false), ("true", true), ("false", false), ("on", true), ("off", false)]

/-- A word in lower case, with a capital, or in upper case. -/
def spellings (word : String) : List String :=
  [word, word.capitalize, String.ofList (word.toList.map Char.toUpper)]

/-- Whether a text is a word for a truth value. -/
def isTruthWord (s : String) : Bool :=
  truthWords.any fun w => (spellings w.1).contains s

/-- Whether a text stands for nothing. -/
def isNothing (s : String) : Bool :=
  s.isEmpty || s == "~" || (spellings "null").contains s

/-! ## Integers -/

/-- A digit or an underscore. -/
def isSpacedDigit (c : Char) : Bool :=
  c.isDigit || c == '_'

/-- A text without a sign in front. -/
def unsigned : List Char → List Char
  | '-' :: cs => cs
  | '+' :: cs => cs
  | cs => cs

/-- A digit of a base, up to the letter F. -/
def isDigitOf (base : Nat) (c : Char) : Bool :=
  (Json.hexValue? c).any (· < base)

/-- Whether a text is a run of characters that pass a test, one at least. -/
def isRun (test : Char → Bool) (cs : List Char) : Bool :=
  !cs.isEmpty && cs.all test

/-- A digit of a base or an underscore. -/
def isSpacedDigitOf (base : Nat) (c : Char) : Bool :=
  isDigitOf base c || c == '_'

/-- A group of sixty: one digit, or two of which the first is below six. -/
def isSixty : List Char → Bool
  | [a] => a.isDigit
  | [a, b] => a.isDigit && a < '6' && b.isDigit
  | _ => false

/-- Digits with colons between, the groups after the first being groups of sixty. -/
def isSixties (first : List Char → Bool) (cs : List Char) : Bool :=
  match Text.splitAll ':' cs with
  | g :: h :: gs => first g && (h :: gs).all isSixty
  | _ => false

/-- Whether a text begins with a digit, and not with a zero, and goes on with digits and
underscores. -/
def isDecimal : List Char → Bool
  | [] => false
  | c :: cs => c.isDigit && c ≠ '0' && cs.all isSpacedDigit

/-- Whether a text without its sign has the form of an integer. -/
def isInteger (cs : List Char) : Bool :=
  match cs with
  | ['0'] => true
  | '0' :: 'b' :: ds => isRun (isSpacedDigitOf 2) ds
  | '0' :: 'x' :: ds => isRun (isSpacedDigitOf 16) ds
  | '0' :: ds => isRun (isSpacedDigitOf 8) ds
  | _ => isDecimal cs || isSixties isDecimal cs

/-- The number that digits of a base spell; there must be one. -/
def numberIn (base : Nat) (ds : List Char) : Except Fault Int :=
  if isRun (isDigitOf base) ds then
    .ok (ds.foldl (fun n d => n * base + (Json.hexValue? d).getD 0) 0 : Nat)
  else .error .malformed

/-- The integers of groups. -/
def groups : List (List Char) → Except Fault (List Int)
  | [] => .ok []
  | g :: gs => do
    let n ← Number.readInteger g
    let ns ← groups gs
    .ok (n :: ns)

/-- The integer that a text without sign and underscores stands for. -/
def magnitude (cs : List Char) : Except Fault Int :=
  match cs with
  | [] => .error .noPlace
  | ['0'] => .ok 0
  | '0' :: 'b' :: ds => numberIn 2 ds
  | '0' :: 'x' :: ds => numberIn 16 ds
  | '0' :: ds => numberIn 8 ds
  | _ => (groups (Text.splitAll ':' cs)).map (·.foldl (60 * · + ·) 0)

/-- Whether a text begins with a minus sign. -/
def isNegative (cs : List Char) : Bool :=
  cs.head? = some '-'

/-- The text without underscores. -/
def withoutUnderscores (s : String) : List Char :=
  s.toList.filter (· ≠ '_')

/-- The integer that a text stands for. -/
def integer (s : String) : Except Fault Int :=
  let cs := withoutUnderscores s
  if cs.isEmpty then .error .noPlace
  else (magnitude (unsigned cs)).map fun n => if isNegative cs then -n else n

/-! ## Numbers with a fraction -/

/-- Whether a text is an exponent with its sign, or empty. -/
def isExponent : List Char → Bool
  | [] => true
  | e :: s :: ds => (e == 'e' || e == 'E') && (s == '-' || s == '+') && isRun Char.isDigit ds
  | _ => false

/-- Whether a text begins with a digit and goes on with digits and underscores. -/
def isDigits : List Char → Bool
  | [] => false
  | c :: cs => c.isDigit && cs.all isSpacedDigit

/-- Whether a text has digits, a point, and digits or an exponent or nothing after it. -/
def isPointed (whole : List Char → Bool) (mayScale : Bool) (cs : List Char) : Bool :=
  match Text.cutAt? '.' cs with
  | none => false
  | some (before, after) =>
    let rest := after.dropWhile isSpacedDigit
    whole before && (rest.isEmpty || mayScale && isExponent rest)

/-- Whether a text is a word with a point in front. -/
def isPointedWord (words : List String) (cs : List Char) : Bool :=
  words.any fun w => cs == '.' :: w.toList

/-- Whether a text begins with a point and a digit and may end with an exponent. -/
def isBareFraction : List Char → Bool
  | '.' :: d :: cs => d.isDigit && isExponent (cs.dropWhile isSpacedDigit)
  | _ => false

/-- Whether a text has the form of a number with a fraction, or of one that is not finite. -/
def isFraction (cs : List Char) : Bool :=
  let body := unsigned cs
  isPointed isDigits true body || isPointed (isSixties isDigits) false body || isBareFraction cs ||
    isPointedWord ["inf", "Inf", "INF"] body || isPointedWord ["nan", "NaN", "NAN"] cs

/-- The doubles of groups. -/
def doubles : List (List Char) → Except Fault (List Binary64)
  | [] => .ok []
  | g :: gs =>
    match Number.readDouble? g with
    | none => .error .malformed
    | some x => (doubles gs).map (x :: ·)

/-- The sum of groups of sixty, the last one first. -/
def sixtieth (base : Int) (sum : Binary64) : List Binary64 → Binary64
  | [] => sum
  | x :: xs => sixtieth (60 * base) (sum.add (x.mul (Binary64.ofInt base))) xs

/-- The double that a text stands for. -/
def double (s : String) : Except Fault Binary64 :=
  let cs := (withoutUnderscores s).map Char.toLower
  if cs.isEmpty then .error .noPlace
  else
    let body := unsigned cs
    let sign (x : Binary64) : Binary64 := if isNegative cs then x.neg else x
    if body = ".inf".toList then .ok (sign (.infinity false))
    else if body = ".nan".toList then .ok .nan
    else if body.contains ':' then
      (doubles (Text.splitAll ':' body)).map fun xs =>
        sign (sixtieth 1 (Binary64.zero false) xs.reverse)
    else
      match Number.readDouble? body with
      | none => .error .malformed
      | some x => .ok (sign x)

/-! ## Dates and moments -/

/-- A date as it is written, with a time or not. The parts need not make a date. -/
structure Written where
  year : Nat
  month : Nat
  day : Nat
  /-- Whether month and day have two digits. -/
  isFull : Bool
  /-- The text of the time, if one follows. -/
  time : Option (List Char)
deriving Repr

/-- The number of two digits at most in front, how many they are, and the rest. -/
def shortNumber? (cs : List Char) : Option (Nat × Nat × List Char) :=
  let ds := (cs.take 2).takeWhile Char.isDigit
  if ds.isEmpty then none else some (Text.digitsValue ds, ds.length, cs.drop ds.length)

/-- The number of an exact count of digits in front, and the rest. -/
def exactNumber? (count : Nat) (cs : List Char) : Option (Nat × List Char) :=
  let ds := cs.take count
  if ds.length = count && ds.all Char.isDigit then some (Text.digitsValue ds, cs.drop count)
  else none

/-- The time after a date: it follows a letter, or blanks. -/
def timePart? : List Char → Option (List Char)
  | [] => none
  | c :: cs =>
    if c = 'T' ∨ c = 't' then some cs
    else if isBlank c then some (cs.dropWhile isBlank)
    else none

/-- A text as a date with or without a time. -/
def written? (cs : List Char) : Option Written := do
  let (year, cs) ← exactNumber? 4 cs
  let cs ← Text.afterRun? ['-'] cs
  let (month, m, cs) ← shortNumber? cs
  let cs ← Text.afterRun? ['-'] cs
  let (day, d, cs) ← shortNumber? cs
  let isFull := m = 2 && d = 2
  if cs.isEmpty then some ⟨year, month, day, isFull, none⟩
  else (timePart? cs).map fun time => ⟨year, month, day, isFull, some time⟩

/-- A time of day as it is written. -/
structure WrittenTime where
  hour : Nat
  minute : Nat
  second : Nat
  micros : Nat
  /-- The offset from universal time in minutes. -/
  offset : Option Int
deriving Repr

/-- An offset with its sign, or the letter for universal time, or nothing. -/
def zone? (cs : List Char) : Option (Option Int) :=
  match cs.dropWhile isBlank with
  | [] => if cs.isEmpty then some none else none
  | ['Z'] => some (some 0)
  | s :: rest =>
    if s = '+' ∨ s = '-' then do
      let (hours, _, rest) ← shortNumber? rest
      let minutes ← match rest with
        | [] => some 0
        | _ => do
          let rest ← Text.afterRun? [':'] rest
          let (minutes, rest) ← exactNumber? 2 rest
          if rest.isEmpty then some minutes else none
      let total : Int := hours * 60 + minutes
      some (some (if s = '-' then -total else total))
    else none

/-- Microseconds from the digits of a fraction; further digits are cut off. -/
def microsOf (ds : List Char) : Nat :=
  let kept := ds.take 6
  Text.digitsValue kept * Nat.pow 10 (6 - kept.length)

/-- A text as a time of day with an offset. -/
def time? (cs : List Char) : Option WrittenTime := do
  let (hour, _, cs) ← shortNumber? cs
  let cs ← Text.afterRun? [':'] cs
  let (minute, cs) ← exactNumber? 2 cs
  let cs ← Text.afterRun? [':'] cs
  let (second, cs) ← exactNumber? 2 cs
  let (places, cs) := match cs with
    | '.' :: cs => cs.span Char.isDigit
    | cs => ([], cs)
  let offset ← zone? cs
  some ⟨hour, minute, second, microsOf places, offset⟩

/-- Whether a text has the form of a date, or of a date with a time. -/
def isTime (cs : List Char) : Bool :=
  match written? cs with
  | none => false
  | some w =>
    match w.time with
    | none => w.isFull
    | some t => (time? t).isSome

/-- A time of day on a date. -/
def momentOf (d : Date) (t : WrittenTime) : Except Fault Value :=
  let offset := t.offset.map fun minutes : Int => minutes * (60 * Calendar.second : Nat)
  let seconds := (t.hour * 60 + t.minute) * 60 + t.second
  if t.hour < 24 && t.minute < 60 && t.second < 60 &&
      offset.all fun o => decide (o.natAbs < Calendar.day) then
    .ok (.moment ⟨d, seconds * Calendar.second + t.micros, offset⟩)
  else .error .malformed

/-- The date or moment that a text stands for. -/
def time (s : String) : Except Fault Value :=
  match written? s.toList with
  | none => .error .noAttribute
  | some w =>
    match w.time, w.time.bind time?, Date.mk? w.year w.month w.day with
    | some _, none, _ => .error .noAttribute
    | _, _, none => .error .malformed
    | none, _, some d => .ok (.date d)
    | some _, some t, some d => momentOf d t

/-! ## Kinds -/

/-- The kind of a plain text. -/
def Kind.ofPlain (s : String) : Kind :=
  let cs := s.toList
  if isTruthWord s then .bool
  else if isFraction cs then .float
  else if isInteger (unsigned cs) then .int
  else if s = "<<" then .merge
  else if isNothing s then .nothing
  else if isTime cs then .time
  else if s = "=" then .default
  else .text

/-- What the tags for common kinds begin with. -/
def tagStem : String := "tag:yaml.org,2002:"

/-- The kinds that tags ask for. -/
def tagKinds : List (String × Kind) :=
  [("null", .nothing), ("bool", .bool), ("int", .int), ("float", .float), ("timestamp", .time),
    ("str", .text), ("merge", .merge), ("value", .default), ("seq", .sequence), ("map", .mapping)]

/-- The kind that a tag asks for. -/
def Kind.ofTag (tag : String) : Kind :=
  ((tagKinds.find? fun t => tagStem ++ t.1 = tag).map (·.2)).getD .unknown

/-- The value of a text of a kind. -/
def Kind.valueOf (k : Kind) (s : String) : Except Refusal Value :=
  match k with
  | nothing => .ok .null
  | bool =>
    match truthWords.lookup s.toLower with
    | some b => .ok (.bool b)
    | none => .error (.fault .noKey)
  | int => ((integer s).map Value.int).mapError .fault
  | float => ((double s).map Value.float).mapError .fault
  | time => (Yaml.time s).mapError .fault
  | text => .ok (.text s)
  | _ => .error .malformed

end TableAudit.Yaml
