import TableAudit.Json.Read
import TableAudit.Yaml.Cursor

/-!
# Texts in a document

A text is written between quotes, plainly, or as a block of lines. Within quotes and plainly
written, a single break between words is read as a space, and more breaks as one less. A block
keeps its breaks, or folds them in the same way.
-/

namespace TableAudit.Yaml

/-- What breaks between two words are read as. -/
def folded (first : Char) (others : List Char) : List Char :=
  if first ≠ '\n' then first :: others
  else if others.isEmpty then [' ']
  else others

/-! ## Between quotes -/

namespace Quoted

/-- The breaks of empty lines and the place of the next word. A document may not end within. -/
def breaks : Nat → Cursor → Except Refusal (List Char × Cursor)
  | 0, _ => .error .malformed
  | fuel + 1, k =>
    if k.atSeparator then .error .malformed
    else
      let k := k.skipWhile isBlank
      match k.break? with
      | none => .ok ([], k)
      | some (b, k) => do
        let (bs, k) ← breaks fuel k
        .ok (b :: bs, k)

/-- What the blanks here are read as, with a break among them or not. -/
def blanks (k : Cursor) : Except Refusal (List Char × Cursor) :=
  let (cs, k) := k.span isBlank
  match k.break? with
  | none => .ok (cs, k)
  | some (b, k) => do
    let (bs, k) ← breaks (k.rest.length + 1) k
    .ok (folded b bs, k)

/-- The characters that one letter after a backslash stands for. -/
def letters : List (Char × Char) := [
  ('0', '\x00'), ('a', '\x07'), ('b', '\x08'), ('t', '\t'), ('\t', '\t'), ('n', '\n'),
  ('v', '\x0b'), ('f', '\x0c'), ('r', '\r'), ('e', '\x1b'), (' ', ' '), ('"', '"'),
  ('\\', '\\'), ('/', '/'), ('N', '\x85'), ('_', '\xa0'), ('L', '\u2028'), ('P', '\u2029')]

/-- How many hexadecimal digits follow a letter after a backslash. -/
def widths : List (Char × Nat) := [('x', 2), ('u', 4), ('U', 8)]

/-- The number that hexadecimal digits spell, all of them. -/
def hexNumber? (ds : List Char) : Option Nat :=
  ds.foldlM (fun n d => (Json.hexValue? d).map (16 * n + ·)) 0

/-- The character that a number of hexadecimal digits stands for. -/
def coded (width : Nat) (k : Cursor) : Except Refusal (List Char × Cursor) :=
  let ds := k.rest.take width
  match hexNumber? ds with
  | none => .error .malformed
  | some n =>
    if ds.length < width then .error .malformed
    else if n < 0x110000 then .ok ([Json.charOfUnit n], k.skip width)
    else .error (.fault .malformed)

/-- What an escape stands for, after its backslash. An escaped break stands for nothing. -/
def escaped (k : Cursor) : Except Refusal (List Char × Cursor) :=
  match k.peek with
  | none => .error .malformed
  | some c =>
    match letters.lookup c, widths.lookup c, k.break? with
    | some d, _, _ => .ok ([d], k.next)
    | none, some width, _ => coded width k.next
    | none, none, some (_, k) => breaks (k.rest.length + 1) k
    | none, none, none => .error .malformed

/-- A piece of text between quotes, or its end. -/
inductive Piece
  | text (cs : List Char)
  | closed

/-- The next piece between quotes. Only between double quotes are there escapes; a single quote
within single quotes is written twice. -/
def piece (double : Bool) (k : Cursor) : Except Refusal (Piece × Cursor) :=
  match k.peek with
  | none => .error .malformed
  | some c =>
    if isBlank c || isBreak c then (blanks k).map fun r => (.text r.1, r.2)
    else if double then
      if c = '"' then .ok (.closed, k.next)
      else if c = '\\' then (escaped k.next).map fun r => (.text r.1, r.2)
      else .ok (.text [c], k.next)
    else if c = '\'' then
      if k.peekAt 1 = some '\'' then .ok (.text [c], k.skip 2) else .ok (.closed, k.next)
    else .ok (.text [c], k.next)

/-- The text up to the closing quote. -/
def body (double : Bool) : Nat → Cursor → Except Refusal (List Char × Cursor)
  | 0, _ => .error .malformed
  | fuel + 1, k => do
    match ← piece double k with
    | (.closed, k) => .ok ([], k)
    | (.text cs, k) =>
      let (rest, k) ← body double fuel k
      .ok (cs ++ rest, k)

/-- The text between quotes that open here, and the place after them. -/
def read (double : Bool) (k : Cursor) : Except Refusal (List Char × Cursor) :=
  body double (k.rest.length + 1) k.next

end Quoted

/-! ## Plainly written -/

/-- A text that was read plainly. -/
structure Plain where
  text : List Char
  next : Cursor
  /-- Whether the text ended with a line. -/
  endedLine : Bool
deriving Repr

namespace Plain

/-- The brackets and the comma, which have a meaning of their own within brackets. -/
def marks : List Char := [',', '[', ']', '\x7b', '\x7d']

/-- Whether a word ends here. Within brackets more characters end it. -/
def ends (bracketed : Bool) : List Char → Bool
  | [] => true
  | c :: cs =>
    isBlank c || isBreak c ||
      (c == ':' && (endsWord cs.head? || bracketed && cs.head?.any marks.contains)) ||
      (bracketed && (c == '?' || marks.contains c))

/-- The word in front. -/
def word (bracketed : Bool) : List Char → List Char
  | [] => []
  | c :: cs => if ends bracketed (c :: cs) then [] else c :: word bracketed cs

/-- The breaks of empty lines and the place of the next word; no breaks if a document ends
there. -/
def breaks : Nat → Cursor → Option (List Char) × Cursor
  | 0, k => (none, k)
  | fuel + 1, k =>
    if k.atSeparator then (none, k)
    else
      let k := k.skipSpaces
      match k.break? with
      | none => (some [], k)
      | some (b, k) =>
        let (bs, k) := breaks fuel k
        (bs.map (b :: ·), k)

/-- What lies between two words: how it is read, and the place after it. -/
def gap (k : Cursor) : Plain :=
  let (spaces, k) := k.span (· == ' ')
  match k.break? with
  | none => ⟨spaces, k, false⟩
  | some (b, k) =>
    match breaks (k.rest.length + 1) k with
    | (none, k) => ⟨[], k, true⟩
    | (some bs, k) => ⟨folded b bs, k, true⟩

/-- Whether no further word follows a gap: the line is indented too little, or a comment or
another part of the document follows. -/
def isLast (bracketed : Bool) (indent : Nat) (g : Plain) : Bool :=
  g.text.isEmpty || g.next.peek == some '#' || (!bracketed && g.next.column < indent) ||
    ends bracketed g.next.rest

/-- Words with gaps between them. -/
def words (bracketed : Bool) (indent : Nat) : Nat → Cursor → Plain
  | 0, k => ⟨[], k, false⟩
  | fuel + 1, k =>
    let w := word bracketed k.rest
    let g := gap (k.skip w.length)
    if isLast bracketed indent g then ⟨w, g.next, g.endedLine⟩
    else
      let r := words bracketed indent fuel g.next
      ⟨w ++ g.text ++ r.text, r.next, r.endedLine⟩

/-- The plain text that begins here. -/
def read (bracketed : Bool) (indent : Nat) (k : Cursor) : Plain :=
  words bracketed indent (k.rest.length + 1) k

end Plain

/-! ## Blocks of lines -/

namespace Block

/-- What becomes of the breaks at the end of a block: none is kept, the first one, or all. -/
inductive Ending
  | strip
  | clip
  | keep
deriving DecidableEq, Repr

/-- The ending that a sign asks for. -/
def ending? : Option Char → Option Ending
  | some '+' => some .keep
  | some '-' => some .strip
  | _ => none

/-- The indentation that a digit asks for. -/
def digit? : Option Char → Option Nat
  | some c => if c.isDigit then some (c.toNat - 48) else none
  | none => none

/-- How a block is read. Without an indentation the first line shows it. -/
structure Header where
  ending : Ending
  indent : Option Nat
deriving DecidableEq, Repr

/-- The sign and the digit of a header, in either order. -/
def signs (k : Cursor) : Header × Cursor :=
  match ending? k.peek with
  | some e =>
    let k := k.next
    match digit? k.peek with
    | some n => (⟨e, some n⟩, k.next)
    | none => (⟨e, none⟩, k)
  | none =>
    match digit? k.peek with
    | none => (⟨.clip, none⟩, k)
    | some n =>
      let k := k.next
      match ending? k.peek with
      | some e => (⟨e, some n⟩, k.next)
      | none => (⟨.clip, some n⟩, k)

/-- Past the rest of a line that holds a comment at most. -/
def endOfLine (k : Cursor) : Except Refusal Cursor :=
  if !(k.peek == some ' ' || endsLine k.peek) then .error .malformed
  else
    let k := k.skipSpaces.skipComment
    if endsLine k.peek then .ok ((k.break?).elim k (·.2)) else .error .malformed

/-- The header of a block, after the character that opens it. -/
def header (k : Cursor) : Except Refusal (Header × Cursor) := do
  let (h, k) := signs k
  if h.indent = some 0 then .error .malformed
  let k ← endOfLine k
  .ok (h, k)

/-- The breaks before the first line, and the widest indentation in front of it. -/
def leading : Nat → Nat → Cursor → List Char × Nat × Cursor
  | 0, widest, k => ([], widest, k)
  | fuel + 1, widest, k =>
    let k := k.skipSpaces
    let widest := max widest k.column
    match k.break? with
    | none => ([], widest, k)
    | some (b, k) =>
      let (bs, widest, k) := leading fuel widest k
      (b :: bs, widest, k)

/-- Past spaces, up to a column. -/
def skipIndent (indent : Nat) (k : Cursor) : Cursor :=
  k.skip ((k.rest.take (indent - k.column)).takeWhile (· == ' ')).length

/-- The breaks of empty lines, and the place where the next line's text begins. -/
def breaks (indent : Nat) : Nat → Cursor → List Char × Cursor
  | 0, k => ([], k)
  | fuel + 1, k =>
    let k := skipIndent indent k
    match k.break? with
    | none => ([], k)
    | some (b, k) =>
      let (bs, k) := breaks indent fuel k
      (b :: bs, k)

/-- Whether a line of the block begins here. -/
def hasLine (indent : Nat) (k : Cursor) : Bool :=
  k.column == indent && k.peek.isSome

/-- What the break between two lines is read as. Only breaks between lines that begin with a word
are folded. -/
def joint (folds : Bool) (line : List Char) (lineBreak others : List Char) (k : Cursor) :
    List Char :=
  if folds && lineBreak == ['\n'] && !line.head?.any isBlank && !k.peek.any isBlank then
    if others.isEmpty then [' '] else []
  else lineBreak

/-- The lines of a block: their text, the break after the last one, and the breaks of the empty
lines that follow. -/
structure Lines where
  text : List Char
  lastBreak : List Char
  others : List Char
  next : Cursor
deriving Repr

/-- The lines that begin here. -/
def lines (folds : Bool) (indent : Nat) : Nat → Cursor → Lines
  | 0, k => ⟨[], [], [], k⟩
  | fuel + 1, k =>
    let (line, k) := k.span (!isBreak ·)
    let (lastBreak, k) := match k.break? with
      | some (b, k) => ([b], k)
      | none => ([], k)
    let (others, k) := breaks indent (k.rest.length + 1) k
    if hasLine indent k then
      let r := lines folds indent fuel k
      { r with text := line ++ joint folds line lastBreak others k ++ others ++ r.text }
    else ⟨line, lastBreak, others, k⟩

/-- The breaks in front of the first line, the column in which its text begins, and its place. -/
def opening (least : Nat) (h : Header) (k : Cursor) : List Char × Nat × Cursor :=
  match h.indent with
  | some n =>
    let indent := least + n - 1
    let (bs, k) := breaks indent (k.rest.length + 1) k
    (bs, indent, k)
  | none =>
    let (bs, widest, k) := leading (k.rest.length + 1) 0 k
    (bs, max least widest, k)

/-- The text of a block whose opening character stands here. Its lines are indented to column
`least` at least. -/
def read (folds : Bool) (least : Nat) (k : Cursor) : Except Refusal (List Char × Cursor) := do
  let (h, k) ← header k.next
  let (before, indent, k) := opening least h k
  let kept (lastBreak others : List Char) : List Char :=
    match h.ending with
    | .strip => []
    | .clip => lastBreak
    | .keep => lastBreak ++ others
  if hasLine indent k then
    let r := lines folds indent (k.rest.length + 1) k
    .ok (before ++ r.text ++ kept r.lastBreak r.others, r.next)
  else .ok (kept [] before, k)

end Block

end TableAudit.Yaml
