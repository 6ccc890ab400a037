import TableAudit.Json.Read
import TableAudit.Yaml.Cursor

/-!
# Tokens

The marks, names and texts that a document is made of, and how directives, names and tags are
read.
-/

namespace TableAudit.Yaml

/-- What a line with a percent sign says. -/
inductive Directive
  | version (major : Nat)
  | handle (name expansion : String)
  | unknown
deriving DecidableEq, Repr

/-- A part of a document. -/
inductive Token
  | directive (d : Directive)
  | documentStart
  | documentEnd
  | streamEnd
  | blockSequenceStart
  | blockMappingStart
  | blockEnd
  | flowSequenceStart
  | flowSequenceEnd
  | flowMappingStart
  | flowMappingEnd
  | flowEntry
  | blockEntry
  | key
  | value
  | reference (name : String)
  | anchor (name : String)
  /-- A tag without a handle is spelled out. -/
  | tag (handle : Option String) (suffix : String)
  | scalar (plain : Bool) (text : String)
deriving DecidableEq, Repr

/-- A character of a name. -/
def isNameChar (c : Char) : Bool :=
  c.isAlphanum || c == '-' || c == '_'

/-- The name in front, which has a character at least. -/
def name (k : Cursor) : Except Refusal (List Char × Cursor) :=
  let (cs, k) := k.span isNameChar
  if cs.isEmpty then .error .malformed else .ok (cs, k)

/-- Go on if a condition holds. -/
def require (condition : Bool) : Except Refusal Unit :=
  if condition then .ok () else .error .malformed

/-- Whether a space or the end of a line stands here. -/
def atSpace (k : Cursor) : Bool :=
  k.peek == some ' ' || endsLine k.peek

/-- The characters that may follow the name of an anchor. -/
def afterName : List Char := ['?', ':', ',', ']', '\x7d', '%', '@', '\x60']

/-- The name of an anchor or of a reference, after its mark. -/
def anchorName (k : Cursor) : Except Refusal (String × Cursor) := do
  let (cs, k) ← name k.next
  require (endsWord k.peek || k.peek.any afterName.contains)
  .ok (String.ofList cs, k)

/-! ## Tags -/

/-- The characters of an address beside letters and digits. -/
def addressMarks : List Char := [
  '-', ';', '/', '?', ':', '@', '&', '=', '+', '$', ',', '_', '.', '!', '~', '*', '\'', '(', ')',
  '[', ']', '%']

/-- A character of an address. -/
def isAddressChar (c : Char) : Bool :=
  c.isAlphanum || addressMarks.contains c

/-- The bytes that percent signs with two hexadecimal digits spell in front, and the rest. -/
def percentBytes : List Char → Except Refusal (List UInt8 × List Char)
  | '%' :: a :: b :: cs =>
    match Json.hexValue? a, Json.hexValue? b with
    | some m, some n => do
      let (bs, rest) ← percentBytes cs
      .ok (UInt8.ofNat (16 * m + n) :: bs, rest)
    | _, _ => .error .malformed
  | '%' :: _ => .error .malformed
  | cs => .ok ([], cs)

/-- An address with its percent signs resolved. -/
def resolved : Nat → List Char → Except Refusal (List Char)
  | 0, _ => .ok []
  | _ + 1, [] => .ok []
  | fuel + 1, c :: cs =>
    if c = '%' then do
      let (bytes, rest) ← percentBytes (c :: cs)
      match String.fromUTF8? ⟨bytes.toArray⟩ with
      | none => .error .malformed
      | some s =>
        let rest ← resolved fuel rest
        .ok (s.toList ++ rest)
    else do
      let rest ← resolved fuel cs
      .ok (c :: rest)

/-- The address in front, which has a character at least. -/
def address (k : Cursor) : Except Refusal (String × Cursor) := do
  let (cs, k) := k.span isAddressChar
  require (!cs.isEmpty)
  let cs ← resolved (cs.length + 1) cs
  .ok (String.ofList cs, k)

/-- The handle in front: an exclamation mark, alone or with a name and a second one. -/
def handle (k : Cursor) : Except Refusal (String × Cursor) := do
  require (k.peek == some '!')
  if k.peekAt 1 = some ' ' then .ok ("!", k.next)
  else
    let (cs, after) := k.next.span isNameChar
    require (after.peek == some '!')
    .ok (String.ofList ('!' :: cs ++ ['!']), after.next)

/-- Whether a second exclamation mark stands in the word that begins here. -/
def hasHandle (k : Cursor) : Bool :=
  (k.next.rest.takeWhile fun c => !(c == ' ' || isBreak c)).contains '!'

/-- The tag that begins here. -/
def tagToken (k : Cursor) : Except Refusal (Token × Cursor) := do
  let (t, k) ←
    if k.peekAt 1 = some '<' then do
      let (s, k) ← address (k.skip 2)
      require (k.peek == some '>')
      pure (Token.tag none s, k.next)
    else if endsWord (k.peekAt 1) then pure (.tag none "!", k.next)
    else do
      let (h, k) ← if hasHandle k then handle k else pure ("!", k.next)
      let (s, k) ← address k
      pure (.tag (some h) s, k)
  require (atSpace k)
  .ok (t, k)

/-! ## Directives -/

/-- The digits in front, which are one at least. -/
def digits (k : Cursor) : Except Refusal (Nat × Cursor) := do
  let (ds, k) := k.span Char.isDigit
  require (!ds.isEmpty)
  .ok (Text.digitsValue ds, k)

/-- The version that a directive names. -/
def versionDirective (k : Cursor) : Except Refusal (Directive × Cursor) := do
  let (major, k) ← digits k.skipSpaces
  require (k.peek == some '.')
  let (_, k) ← digits k.next
  require (atSpace k)
  .ok (.version major, k)

/-- The handle that a directive names, with what it stands for. -/
def handleDirective (k : Cursor) : Except Refusal (Directive × Cursor) := do
  let (h, k) ← handle k.skipSpaces
  require (k.peek == some ' ')
  let (s, k) ← address k.skipSpaces
  require (atSpace k)
  .ok (.handle h s, k)

/-- The directive that begins here, and the beginning of the next line. -/
def directiveToken (k : Cursor) : Except Refusal (Token × Cursor) := do
  let (cs, k) ← name k.next
  require (atSpace k)
  let (d, k) ←
    if cs = "YAML".toList then versionDirective k
    else if cs = "TAG".toList then handleDirective k
    else pure (.unknown, k.skipWhile (!isBreak ·))
  let k := k.skipSpaces.skipComment
  require (endsLine k.peek)
  .ok (.directive d, (k.break?).elim k (·.2))

end TableAudit.Yaml
