import TableAudit.Value.Basic
import TableAudit.Text.Search
import TableAudit.Text.Basic

/-!
# Reading JSON

A reader for JSON texts, extended by the numbers `NaN`, `Infinity` and `-Infinity`. It says what
it expected and where; the place is kept as the number of characters still unread. Numbers
without fraction and exponent are integers, all others doubles. A repeated key keeps its first
place and last value.
-/

namespace TableAudit.Json

open TableAudit.Number (Binary64)

/-- What a reader missed. -/
inductive Expected
  | value
  | propertyName
  | colon
  | comma
  | stringEnd
  | plainCharacter
  | escape
  | unicodeEscape
  | endOfText
  | noByteOrderMark
deriving DecidableEq, Repr

/-- The wording of what was missed. -/
def Expected.text : Expected → String
  | value => "Expecting value"
  | propertyName => "Expecting property name enclosed in double quotes"
  | colon => "Expecting ':' delimiter"
  | comma => "Expecting ',' delimiter"
  | stringEnd => "Unterminated string starting at"
  | plainCharacter => "Invalid control character at"
  | escape => "Invalid \\escape"
  | unicodeEscape => "Invalid \\uXXXX escape"
  | endOfText => "Extra data"
  | noByteOrderMark => "Unexpected UTF-8 BOM (decode using utf-8-sig)"

/-- Why a text has no value: it is no JSON text, or an integer in it has too many digits. -/
inductive Refusal
  | malformed (expected : Expected) (unread : Nat)
  | digitLimit
deriving DecidableEq, Repr

/-- What was missed and at which character, with the text that was read. -/
structure Mistake where
  expected : Expected
  position : Nat
  line : Nat
  column : Nat
deriving DecidableEq, Repr

/-- The wording of a mistake. -/
def Mistake.text (m : Mistake) : String :=
  m.expected.text ++ ": line " ++ toString m.line ++ " column " ++ toString m.column ++
    " (char " ++ toString m.position ++ ")"

/-- Why a text could not be read. -/
inductive ReadError
  | mistake (m : Mistake)
  | digitLimit
deriving DecidableEq, Repr

/-- The most digits that an integer may have. -/
def digitLimit : Nat := 4300

/-- White space between the parts of a JSON text. -/
def isSpace (c : Char) : Bool :=
  c == ' ' || c == '\t' || c == '\n' || c == '\r'

/-- Skip white space. -/
def skipSpace (cs : List Char) : List Char :=
  cs.dropWhile isSpace

/-- The value of a hexadecimal digit. -/
def hexValue? (c : Char) : Option Nat :=
  if c.isDigit then some (c.toNat - 48)
  else if 'a' ≤ c ∧ c ≤ 'f' then some (c.toNat - 87)
  else if 'A' ≤ c ∧ c ≤ 'F' then some (c.toNat - 55)
  else none

/-- The unit that four hexadecimal digits spell. -/
def hexUnit? : List Char → Option Nat
  | [a, b, c, d] => do
    let a ← hexValue? a
    let b ← hexValue? b
    let c ← hexValue? c
    let d ← hexValue? d
    some (((a * 16 + b) * 16 + c) * 16 + d)
  | _ => none

/-- The character of a backslash escape with one letter. -/
def escapeLetter? : Char → Option Char
  | '"' => some '"'
  | '\\' => some '\\'
  | '/' => some '/'
  | 'b' => some '\x08'
  | 'f' => some '\x0c'
  | 'n' => some '\n'
  | 'r' => some '\r'
  | 't' => some '\t'
  | _ => none

/-- A character from a unit that may be half of a pair; a half alone has no character. -/
def charOfUnit (n : Nat) : Char :=
  if 0xD800 ≤ n ∧ n < 0xE000 then '\uFFFD' else Char.ofNat n

/-- The second unit of a pair, if one is written at the front: its value and the rest. `none`
means that nothing or another character is written there, an error that its digits are wrong. -/
def lowUnit? : List Char → Except Refusal (Option (Nat × List Char))
  | '\\' :: 'u' :: rest =>
    if rest.length < 5 then .ok none
    else
      match hexUnit? (rest.take 4) with
      | none => .error (.malformed .unicodeEscape (rest.length + 1))
      | some n => .ok (some (n, rest.drop 4))
  | _ => .ok none

/-- The character of an escape with four hexadecimal digits, or of a pair of them, and the
rest. `cs` begins after the `u`. -/
def unicodeEscape (cs : List Char) : Except Refusal (Char × List Char) :=
  if cs.length < 5 then .error (.malformed .unicodeEscape (cs.length + 1))
  else
    match hexUnit? (cs.take 4) with
    | none => .error (.malformed .unicodeEscape (cs.length + 1))
    | some n =>
      let rest := cs.drop 4
      if 0xD800 ≤ n ∧ n < 0xDC00 then
        match lowUnit? rest with
        | .error e => .error e
        | .ok (some (m, rest')) =>
          if 0xDC00 ≤ m ∧ m < 0xE000 then
            .ok (Char.ofNat (0x10000 + (n - 0xD800) * 0x400 + (m - 0xDC00)), rest')
          else .ok (charOfUnit n, rest)
        | .ok none => .ok (charOfUnit n, rest)
      else .ok (charOfUnit n, rest)

/-- The rest of a string after its opening quote. `start` is the number of unread characters at
that quote, `fuel` bounds the number of characters read. -/
def readString (start : Nat) : Nat → List Char → Except Refusal (List Char × List Char)
  | 0, _ => .error (.malformed .stringEnd start)
  | _ + 1, [] => .error (.malformed .stringEnd start)
  | fuel + 1, c :: cs =>
    if c = '"' then .ok ([], cs)
    else if c = '\\' then
      match cs with
      | [] => .error (.malformed .stringEnd start)
      | 'u' :: rest => do
        let (d, rest) ← unicodeEscape rest
        let (s, rest) ← readString start fuel rest
        .ok (d :: s, rest)
      | e :: rest =>
        match escapeLetter? e with
        | none => .error (.malformed .escape (rest.length + 2))
        | some d => do
          let (s, rest) ← readString start fuel rest
          .ok (d :: s, rest)
    else if c.toNat < 0x20 then .error (.malformed .plainCharacter (cs.length + 1))
    else do
      let (s, rest) ← readString start fuel cs
      .ok (c :: s, rest)

/-- The digits at the front and the rest. -/
def spanDigits (cs : List Char) : List Char × List Char :=
  cs.span (·.isDigit)

/-- A sign at the front of an exponent and the rest. -/
def spanSign : List Char → Bool × List Char
  | '-' :: cs => (true, cs)
  | '+' :: cs => (false, cs)
  | cs => (false, cs)

/-- The fraction digits at the front, if a point with digits stands there, and the rest. -/
def spanFraction : List Char → Option (List Char) × List Char
  | '.' :: cs =>
    match spanDigits cs with
    | ([], _) => (none, '.' :: cs)
    | (ds, rest) => (some ds, rest)
  | cs => (none, cs)

/-- The exponent at the front, if a letter with digits stands there, and the rest. -/
def spanExponent : List Char → Option Int × List Char
  | c :: cs =>
    if c = 'e' ∨ c = 'E' then
      let (negative, rest) := spanSign cs
      match spanDigits rest with
      | ([], _) => (none, c :: cs)
      | (ds, rest) =>
        let n : Int := Text.digitsValue ds
        (some (if negative then -n else n), rest)
    else (none, c :: cs)
  | [] => (none, [])

/-- The number at the front and the rest. -/
def readNumber (cs : List Char) : Except Refusal (Value × List Char) :=
  let (negative, body) := match cs with
    | '-' :: rest => (true, rest)
    | _ => (false, cs)
  let (whole, rest) := match body with
    | '0' :: rest => (['0'], rest)
    | _ => spanDigits body
  if whole.isEmpty then .error (.malformed .value cs.length)
  else
    let (fraction, rest) := spanFraction rest
    let (exponent, rest) := spanExponent rest
    match fraction, exponent with
    | none, none =>
      if digitLimit < whole.length then .error .digitLimit
      else
        let n : Int := Text.digitsValue whole
        .ok (.int (if negative then -n else n), rest)
    | _, _ =>
      let places := fraction.getD []
      let x := Binary64.ofDecimal negative (Text.digitsValue (whole ++ places))
        (exponent.getD 0 - places.length)
      .ok (.float x, rest)

/-- The words that stand for values. -/
def words : List (String × Value) :=
  [("null", .null), ("true", .bool true), ("false", .bool false), ("NaN", .float .nan),
    ("Infinity", .float (.infinity false)), ("-Infinity", .float (.infinity true))]

/-- The word at the front and the rest. -/
def readWord? (cs : List Char) : Option (Value × List Char) :=
  words.findSome? fun w => (Text.afterRun? w.1.toList cs).map fun rest => (w.2, rest)

mutual

/-- The value at the front, which no white space precedes, and the rest. `fuel` bounds the depth
and length of what is read. -/
def readValue : Nat → List Char → Except Refusal (Value × List Char)
  | 0, cs => .error (.malformed .value cs.length)
  | fuel + 1, cs =>
    match cs with
    | '"' :: rest => do
      let (s, rest) ← readString cs.length (rest.length + 1) rest
      .ok (.text (String.ofList s), rest)
    | '\x7b' :: rest =>
      let rest := skipSpace rest
      match rest with
      | '\x7d' :: rest => .ok (.map [], rest)
      | _ => do
        let (entries, rest) ← readEntries fuel rest
        .ok (.map (Value.ofPairs entries), rest)
    | '[' :: rest =>
      let rest := skipSpace rest
      match rest with
      | ']' :: rest => .ok (.list [], rest)
      | _ => do
        let (items, rest) ← readItems fuel rest
        .ok (.list items, rest)
    | _ =>
      match readWord? cs with
      | some r => .ok r
      | none => readNumber cs

/-- The items of a list up to its closing bracket. -/
def readItems : Nat → List Char → Except Refusal (List Value × List Char)
  | 0, cs => .error (.malformed .value cs.length)
  | fuel + 1, cs => do
    let (v, rest) ← readValue fuel cs
    let rest := skipSpace rest
    match rest with
    | ']' :: rest => .ok ([v], rest)
    | ',' :: rest => do
      let (vs, rest) ← readItems fuel (skipSpace rest)
      .ok (v :: vs, rest)
    | _ => .error (.malformed .comma rest.length)

/-- The entries of a mapping up to its closing brace. -/
def readEntries : Nat → List Char → Except Refusal (List (Value × Value) × List Char)
  | 0, cs => .error (.malformed .propertyName cs.length)
  | fuel + 1, cs =>
    match cs with
    | '"' :: rest => do
      let (name, rest) ← readString cs.length (rest.length + 1) rest
      let rest := skipSpace rest
      match rest with
      | ':' :: rest => do
        let (v, rest) ← readValue fuel (skipSpace rest)
        let rest := skipSpace rest
        let entry := (Value.text (String.ofList name), v)
        match rest with
        | '\x7d' :: rest => .ok ([entry], rest)
        | ',' :: rest => do
          let (es, rest) ← readEntries fuel (skipSpace rest)
          .ok (entry :: es, rest)
        | _ => .error (.malformed .comma rest.length)
      | _ => .error (.malformed .colon rest.length)
    | _ => .error (.malformed .propertyName cs.length)

end

/-- The value of a whole text, white space around it allowed. -/
def readAll (cs : List Char) : Except Refusal Value := do
  if cs.head? = some '\uFEFF' then .error (.malformed .noByteOrderMark cs.length)
  else
    let (v, rest) ← readValue (2 * cs.length + 2) (skipSpace cs)
    let rest := skipSpace rest
    if rest.isEmpty then .ok v else .error (.malformed .endOfText rest.length)

/-- The place of a refusal in the text that was refused. -/
def Refusal.located (cs : List Char) : Refusal → ReadError
  | .digitLimit => .digitLimit
  | .malformed expected unread =>
    let position := cs.length - unread
    let (line, column) := Text.lineColumn cs position
    .mistake ⟨expected, position, line, column⟩

/-- The value that a JSON text stands for. -/
def read (s : String) : Except ReadError Value :=
  let cs := s.toList
  (readAll cs).mapError (·.located cs)

end TableAudit.Json
