import TableAudit.Yaml.Scalar
import TableAudit.Yaml.Token

/-!
# The layout of a document

Outside brackets, columns show the structure of a document: a line that begins farther right opens
a collection and one that begins farther left closes those that began to its right. A word is
known to be a key only when a colon follows, which must be on its line; so a place is kept for the
mark of a key before every word that may turn out to be one, and settled later. Places that are
never settled vanish.
-/

namespace TableAudit.Yaml

/-- A token, or a place for the mark of a key. -/
inductive Slot
  | token (t : Token)
  | unsettled
  | key
  /-- The key begins a mapping. -/
  | firstKey
deriving DecidableEq, Repr

/-- The tokens that a slot stands for. -/
def Slot.tokens : Slot → List Token
  | token t => [t]
  | unsettled => []
  | key => [.key]
  | firstKey => [.blockMappingStart, .key]

/-- A word that may turn out to be a key. -/
structure Candidate where
  /-- The place kept for its mark. -/
  slot : Nat
  /-- Whether it must be a key, because nothing else can begin its line. -/
  isRequired : Bool
  place : Cursor
deriving Repr

/-- How far a document is read. -/
structure Layout where
  cursor : Cursor
  slots : Array Slot
  /-- How many brackets are open. -/
  depth : Nat
  /-- The column of the innermost collection, −1 outside all. -/
  indent : Int
  /-- The columns of the collections around it. -/
  outer : List Int
  keyMayStart : Bool
  /-- The candidates, by the depth at which they stand. -/
  candidates : List (Nat × Candidate)
  isDone : Bool
deriving Repr

namespace Layout

/-- The beginning of a text. -/
def start (cs : List Char) : Layout :=
  ⟨.start cs, #[], 0, -1, [], true, [], false⟩

/-- The column of the cursor. -/
def column (l : Layout) : Int :=
  l.cursor.column

/-- Whether brackets are open. -/
def inBrackets (l : Layout) : Bool :=
  0 < l.depth

/-- Add a token. -/
def push (t : Token) (l : Layout) : Layout :=
  { l with slots := l.slots.push (.token t) }

/-- Add a token that ends at a place. -/
def pushTo (t : Token) (k : Cursor) (l : Layout) : Layout :=
  { l.push t with cursor := k }

/-- Whether a candidate can no longer be a key: its line is over, or it is far behind. -/
def isStale (k : Cursor) (c : Candidate) : Bool :=
  c.place.line ≠ k.line || 1024 < k.index - c.place.index

/-- Drop the candidates that can no longer be keys, unless one had to be. -/
def dropStale (l : Layout) : Except Refusal Layout :=
  if l.candidates.any fun c => isStale l.cursor c.2 && c.2.isRequired then .error .malformed
  else .ok { l with candidates := l.candidates.filter fun c => !isStale l.cursor c.2 }

/-- Drop the candidate at this depth, unless it has to be a key. -/
def forget (l : Layout) : Except Refusal Layout :=
  if (l.candidates.lookup l.depth).any (·.isRequired) then .error .malformed
  else .ok { l with candidates := l.candidates.filter (·.1 ≠ l.depth) }

/-- Take what begins here as a candidate, if a key may start here. -/
def nominate (l : Layout) : Except Refusal Layout :=
  if l.keyMayStart then do
    let isRequired := !l.inBrackets && l.indent == l.column
    let c : Candidate := ⟨l.slots.size, isRequired, l.cursor⟩
    let l ← l.forget
    .ok { l with
      candidates := (l.depth, c) :: l.candidates
      slots := l.slots.push .unsettled }
  else .ok l

/-- Open a collection at a column, unless the innermost one is there already or farther right.
It says whether one was opened. -/
def openAt (column : Int) (l : Layout) : Bool × Layout :=
  if l.indent < column then
    (true, { l with indent := column, outer := l.indent :: l.outer })
  else (false, l)

/-- Close collections to the right of a column, with those around given. -/
def closeTo (column : Int) : List Int → Layout → Layout
  | [], l => l
  | i :: outer, l =>
    if column < l.indent then
      closeTo column outer { l.push .blockEnd with indent := i, outer := outer }
    else l

/-- Close collections to the right of a column; within brackets columns show nothing. -/
def unwind (column : Int) (l : Layout) : Layout :=
  if l.inBrackets then l else closeTo column l.outer l

/-- Past blanks, comments and breaks. A key may start in a new line outside brackets. -/
def skipToToken : Nat → Layout → Layout
  | 0, l => l
  | fuel + 1, l =>
    let k := l.cursor.skipSpaces.skipComment
    match k.break? with
    | none => { l with cursor := k }
    | some (_, k) =>
      skipToToken fuel { l with cursor := k, keyMayStart := l.keyMayStart || !l.inBrackets }

/-- To the next token. A byte order mark at the beginning of the text is passed over. -/
def toNextToken (l : Layout) : Layout :=
  let k := l.cursor
  let k := if k.index = 0 ∧ k.peek = some '\uFEFF' then k.next else k
  skipToToken (k.rest.length + 1) { l with cursor := k }

/-! ## Reading a token -/

/-- The end of the text. -/
def finish (l : Layout) : Except Refusal Layout := do
  let l ← (l.unwind (-1)).forget
  .ok { l.push .streamEnd with keyMayStart := false, candidates := [], isDone := true }

/-- A line with a percent sign. -/
def directive (l : Layout) : Except Refusal Layout := do
  let l ← (l.unwind (-1)).forget
  let (t, k) ← directiveToken l.cursor
  .ok { l.pushTo t k with keyMayStart := false }

/-- The mark that begins or ends a document. -/
def documentMark (t : Token) (l : Layout) : Except Refusal Layout := do
  let l ← (l.unwind (-1)).forget
  .ok { l.pushTo t (l.cursor.skip 3) with keyMayStart := false }

/-- An opening bracket. -/
def openBracket (t : Token) (l : Layout) : Except Refusal Layout := do
  let l ← l.nominate
  .ok { l.pushTo t l.cursor.next with depth := l.depth + 1, keyMayStart := true }

/-- A closing bracket, which needs an open one. -/
def closeBracket (t : Token) (l : Layout) : Except Refusal Layout := do
  let l ← l.forget
  require l.inBrackets
  .ok { l.pushTo t l.cursor.next with depth := l.depth - 1, keyMayStart := false }

/-- A comma within brackets. -/
def comma (l : Layout) : Except Refusal Layout := do
  let l ← l.forget
  .ok { l.pushTo .flowEntry l.cursor.next with keyMayStart := true }

/-- The opening of a collection by a mark that stands here, outside brackets. -/
def openByMark (t : Token) (l : Layout) : Except Refusal Layout := do
  if l.inBrackets then .ok l
  else
    require l.keyMayStart
    let (opened, l) := l.openAt l.column
    .ok (if opened then l.push t else l)

/-- The dash of an item. -/
def dash (l : Layout) : Except Refusal Layout := do
  let l ← l.openByMark .blockSequenceStart
  let l ← l.forget
  .ok { l.pushTo .blockEntry l.cursor.next with keyMayStart := true }

/-- The question mark of a key. -/
def questionMark (l : Layout) : Except Refusal Layout := do
  let l ← l.openByMark .blockMappingStart
  let l ← l.forget
  .ok { l.pushTo .key l.cursor.next with keyMayStart := !l.inBrackets }

/-- A colon after a candidate makes it a key. -/
def settle (c : Candidate) (l : Layout) : Layout :=
  let (opened, l) := if l.inBrackets then (false, l) else l.openAt c.place.column
  { l with
    slots := l.slots.setIfInBounds c.slot (if opened then .firstKey else .key)
    candidates := l.candidates.filter (·.1 ≠ l.depth)
    keyMayStart := false }

/-- The colon of a value. -/
def colon (l : Layout) : Except Refusal Layout :=
  match l.candidates.lookup l.depth with
  | some c =>
    let l := l.settle c
    .ok (l.pushTo .value l.cursor.next)
  | none => do
    let l ← l.openByMark .blockMappingStart
    .ok { l.pushTo .value l.cursor.next with keyMayStart := !l.inBrackets }

/-- A reference or the mark of an anchor. -/
def named (make : String → Token) (l : Layout) : Except Refusal Layout := do
  let l ← l.nominate
  let (s, k) ← anchorName l.cursor
  .ok { l.pushTo (make s) k with keyMayStart := false }

/-- A tag. -/
def tag (l : Layout) : Except Refusal Layout := do
  let l ← l.nominate
  let (t, k) ← tagToken l.cursor
  .ok { l.pushTo t k with keyMayStart := false }

/-- A block of lines. A key may follow it. -/
def block (folds : Bool) (l : Layout) : Except Refusal Layout := do
  let l ← l.forget
  let (cs, k) ← Block.read folds (max 1 (l.indent + 1).toNat) l.cursor
  .ok { l.pushTo (.scalar false (String.ofList cs)) k with keyMayStart := true }

/-- A text between quotes. -/
def quoted (double : Bool) (l : Layout) : Except Refusal Layout := do
  let l ← l.nominate
  let (cs, k) ← Quoted.read double l.cursor
  .ok { l.pushTo (.scalar false (String.ofList cs)) k with keyMayStart := false }

/-- A plain text. A key may follow it if it ended with a line. -/
def plain (l : Layout) : Except Refusal Layout := do
  let l ← l.nominate
  let p := Plain.read l.inBrackets (l.indent + 1).toNat l.cursor
  .ok { l.pushTo (.scalar true (String.ofList p.text)) p.next with keyMayStart := p.endedLine }

/-- The characters that no plain text begins with. Three of them may after all, where they
belong to a word. -/
def indicators : List Char := [
  '-', '?', ':', ',', '[', ']', '\x7b', '\x7d', '#', '&', '*', '!', '|', '>', '\'', '"', '%', '@',
  '\x60']

/-- Whether a plain text may begin with a character here. -/
def beginsPlain (l : Layout) (c : Char) : Bool :=
  !(isBlank c || isBreak c || indicators.contains c) ||
    (!endsWord (l.cursor.peekAt 1) && (c == '-' || (!l.inBrackets && (c == '?' || c == ':'))))

/-- The token that begins with a character here. -/
def tokenOf (c : Char) (l : Layout) : Except Refusal Layout :=
  let alone := endsWord (l.cursor.peekAt 1)
  let atMargin := l.cursor.column = 0
  if c = '%' ∧ atMargin then l.directive
  else if atMargin ∧ l.cursor.atMark Cursor.startMark then l.documentMark .documentStart
  else if atMargin ∧ l.cursor.atMark Cursor.endMark then l.documentMark .documentEnd
  else if c = '[' then l.openBracket .flowSequenceStart
  else if c = '\x7b' then l.openBracket .flowMappingStart
  else if c = ']' then l.closeBracket .flowSequenceEnd
  else if c = '\x7d' then l.closeBracket .flowMappingEnd
  else if c = ',' then l.comma
  else if c = '-' ∧ alone then l.dash
  else if c = '?' ∧ (l.inBrackets ∨ alone) then l.questionMark
  else if c = ':' ∧ (l.inBrackets ∨ alone) then l.colon
  else if c = '*' then l.named .reference
  else if c = '&' then l.named .anchor
  else if c = '!' then l.tag
  else if c = '|' ∧ !l.inBrackets then l.block false
  else if c = '>' ∧ !l.inBrackets then l.block true
  else if c = '\'' then l.quoted false
  else if c = '"' then l.quoted true
  else if l.beginsPlain c then l.plain
  else .error .malformed

/-- Read on to the end of the next token. -/
def step (l : Layout) : Except Refusal Layout := do
  let l ← l.toNextToken.dropStale
  let l := l.unwind l.column
  match l.cursor.peek with
  | none => l.finish
  | some c => l.tokenOf c

/-- Read tokens, at most a number of them, to the end of the text. -/
def run : Nat → Layout → Except Refusal Layout
  | 0, _ => .error .malformed
  | fuel + 1, l => do
    let l ← l.step
    if l.isDone then .ok l else run fuel l

end Layout

/-- The tokens of a text. Each takes a character at least. -/
def tokens (cs : List Char) : Except Refusal (List Token) := do
  let l ← (Layout.start cs).run (cs.length + 1)
  .ok (l.slots.toList.flatMap Slot.tokens)

end TableAudit.Yaml
