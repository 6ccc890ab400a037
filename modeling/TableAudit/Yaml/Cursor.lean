import TableAudit.Fault

/-!
# Places in a text

A cursor stands in a text and knows its line and its column there. A break begins a line; a byte
order mark takes no column.
-/

namespace TableAudit.Yaml

/-- Why a text has no value: it is malformed, or a value in it cannot be made. -/
inductive Refusal
  | malformed
  | fault (f : Fault)
deriving DecidableEq, Repr

/-- A place in a text. Lines and columns count from zero. -/
structure Cursor where
  rest : List Char
  index : Nat
  line : Nat
  column : Nat
deriving Repr

/-- A character that ends a line. -/
def isBreak (c : Char) : Bool :=
  c == '\n' || c == '\x85' || c == '\u2028' || c == '\u2029'

/-- A space or a tab. -/
def isBlank (c : Char) : Bool :=
  c == ' ' || c == '\t'

/-- Whether a line ends here. -/
def endsLine : Option Char → Bool
  | none => true
  | some c => isBreak c

/-- Whether a word ends here. -/
def endsWord : Option Char → Bool
  | none => true
  | some c => isBlank c || isBreak c

/-- What a break stands for: separators stay, every other break is a new line. -/
def breakText (c : Char) : Char :=
  if c == '\x85' then '\n' else c

namespace Cursor

/-- The beginning of a text. -/
def start (cs : List Char) : Cursor :=
  ⟨cs, 0, 0, 0⟩

/-- The next character. -/
def peek (k : Cursor) : Option Char :=
  k.rest.head?

/-- The character some places ahead. -/
def peekAt (k : Cursor) (n : Nat) : Option Char :=
  k.rest[n]?

/-- Past one character. -/
def next (k : Cursor) : Cursor :=
  match k.rest with
  | [] => k
  | c :: cs =>
    if isBreak c then ⟨cs, k.index + 1, k.line + 1, 0⟩
    else if c == '\uFEFF' then ⟨cs, k.index + 1, k.line, k.column⟩
    else ⟨cs, k.index + 1, k.line, k.column + 1⟩

/-- Past a number of characters. -/
def skip : Nat → Cursor → Cursor
  | 0, k => k
  | n + 1, k => skip n k.next

/-- The characters in front that pass a test, and the place after them. -/
def span (test : Char → Bool) (k : Cursor) : List Char × Cursor :=
  let cs := k.rest.takeWhile test
  (cs, skip cs.length k)

/-- The place after the characters in front that pass a test. -/
def skipWhile (test : Char → Bool) (k : Cursor) : Cursor :=
  (k.span test).2

/-- Past spaces. -/
def skipSpaces (k : Cursor) : Cursor :=
  k.skipWhile (· == ' ')

/-- Past the rest of the line if a comment stands here. -/
def skipComment (k : Cursor) : Cursor :=
  if k.peek = some '#' then k.skipWhile (!isBreak ·) else k

/-- What a break here stands for, and the place after it. -/
def break? (k : Cursor) : Option (Char × Cursor) :=
  match k.peek with
  | some c => if isBreak c then some (breakText c, k.next) else none
  | none => none

/-- Whether a mark of three characters stands here as a word. -/
def atMark (mark : List Char) (k : Cursor) : Bool :=
  k.rest.take 3 == mark && endsWord (k.peekAt 3)

/-- The mark that begins a document. -/
def startMark : List Char := ['-', '-', '-']

/-- The mark that ends a document. -/
def endMark : List Char := ['.', '.', '.']

/-- Whether a document ends or begins here. -/
def atSeparator (k : Cursor) : Bool :=
  k.atMark startMark || k.atMark endMark

end Cursor

end TableAudit.Yaml
