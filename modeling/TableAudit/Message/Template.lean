import TableAudit.Message.Layout

/-!
# Message templates

A template is a text with fields in braces. A field names a value, may go on to attributes and
items of it, may ask for its literal, and may say how the value is laid out; the layout may itself
have fields, which have none in theirs. Doubled braces stand for single ones. A name that has no
value stands for itself in braces.
-/

namespace TableAudit.Message

open TableAudit.Calendar (Date Moment)

/-- A field as it is written: the text that names the value, the letter of the conversion, and the
layout. -/
structure Field where
  path : List Char
  conversion : Option Char
  layout : List Char
  nested : Bool
deriving Repr

/-- A part of a template. -/
inductive Piece
  | plain (c : Char)
  | field (f : Field)
deriving Repr

/-- The text that names a value, and what follows with the character that ends it. A bracket hides
everything up to its closing one. -/
def spanPath : Bool → List Char → Option (List Char × Char × List Char)
  | _, [] => none
  | true, c :: cs => (spanPath (c != ']') cs).map fun (p, r) => (c :: p, r)
  | false, c :: cs =>
    if c = '\x7b' then none
    else if c = '\x7d' ∨ c = ':' ∨ c = '!' then some ([], c, cs)
    else (spanPath (c == '[') cs).map fun (p, r) => (c :: p, r)

/-- The layout up to the brace that closes the field, and what follows. -/
def spanLayout : Nat → List Char → Option (List Char × List Char)
  | _, [] => none
  | depth, c :: cs =>
    if c = '\x7d' then
      match depth with
      | 0 => some ([], cs)
      | d + 1 => (spanLayout d cs).map fun (p, r) => (c :: p, r)
    else if c = '\x7b' then (spanLayout (depth + 1) cs).map fun (p, r) => (c :: p, r)
    else (spanLayout depth cs).map fun (p, r) => (c :: p, r)

/-- The field after its opening brace, and what follows. -/
def field? (cs : List Char) : Option (Field × List Char) := do
  let (path, terminator, rest) ← spanPath false cs
  let withLayout (conversion : Option Char) (rest : List Char) : Option (Field × List Char) :=
    (spanLayout 0 rest).map fun (l, rest) => (⟨path, conversion, l, l.contains '\x7b'⟩, rest)
  match terminator, rest with
  | '\x7d', rest => some (⟨path, none, [], false⟩, rest)
  | ':', rest => withLayout none rest
  | _, k :: '\x7d' :: rest => some (⟨path, some k, [], false⟩, rest)
  | _, k :: ':' :: rest => withLayout (some k) rest
  | _, _ => none

/-- Cut a template into its next piece and the rest: `none` at the end, a fault at a brace that is
out of place. -/
def piece? : List Char → Except Fault (Option (Piece × List Char))
  | [] => .ok none
  | '\x7b' :: '\x7b' :: cs => .ok (some (.plain '\x7b', cs))
  | '\x7d' :: '\x7d' :: cs => .ok (some (.plain '\x7d', cs))
  | '\x7b' :: cs =>
    match field? cs with
    | some (f, rest) => .ok (some (.field f, rest))
    | none => .error .malformed
  | '\x7d' :: _ => .error .malformed
  | c :: cs => .ok (some (.plain c, cs))

/-- The part of a path before its first step. -/
def spanName (cs : List Char) : List Char × List Char :=
  cs.span fun c => c != '.' && c != '['

/-- Whether a name is a place in a sequence. -/
def isPlace (name : List Char) : Bool :=
  !name.isEmpty && name.all Text.isDecimalDigit

/-- Attributes of dates. -/
def dateAttribute? (d : Date) (name : String) : Option Value :=
  match name with
  | "year" => some (.int d.year)
  | "month" => some (.int d.month)
  | "day" => some (.int d.day)
  | _ => none

/-- Attributes of moments. -/
def momentAttribute? (m : Moment) (name : String) : Option Value :=
  let (h, min, s) := m.clock
  match name with
  | "hour" => some (.int h)
  | "minute" => some (.int min)
  | "second" => some (.int s)
  | "microsecond" => some (.int (m.micros % Calendar.second : Nat))
  | _ => dateAttribute? m.date name

/-- Attributes of numbers: as fractions and as complex numbers. -/
def numberAttribute? (v : Value) (name : String) : Option Value :=
  match v, name with
  | .int n, "numerator" => some (.int n)
  | .int _, "denominator" => some (.int 1)
  | .float _, "imag" => some (.float (Number.Binary64.zero false))
  | .int _, "imag" => some (.int 0)
  | v, "real" => some v
  | _, _ => none

/-- An attribute of a value. -/
def attributeOf (v : Value) (name : List Char) : Except Fault Value :=
  let name := String.ofList name
  let found := match v with
    | .bool b => numberAttribute? (.int (Value.ofBool b)) name
    | .int n => numberAttribute? (.int n) name
    | .float x => numberAttribute? (.float x) name
    | .date d => dateAttribute? d name
    | .moment m => momentAttribute? m name
    | .stamp m => momentAttribute? m name
    | .record attributes => attributes.lookup name
    | _ => none
  match found with
  | some w => .ok w
  | none => .error .noAttribute

/-- The value at a place of a sequence. -/
def at? (items : List Value) (i : Nat) : Except Fault Value :=
  match items[i]? with
  | some v => .ok v
  | none => .error .noPlace

/-- The value of a key in a mapping. -/
def entry (entries : List (Value × Value)) (key : Value) : Except Fault Value :=
  match entries.find? fun e => e.1.eqv key with
  | some e => .ok e.2
  | none => .error .noKey

/-- An item of a value: by place in sequences, by key in mappings. -/
def itemOf (v : Value) (key : List Char) : Except Fault Value :=
  if isPlace key then
    let n := Text.digitsValue key
    if sizeLimit < n then .error .malformed
    else
      match v with
      | .list items => at? items n
      | .tuple items => at? items n
      | .bytes b => at? (b.map fun c => .int c.toNat) n
      | .text s => at? (s.toList.map fun c => .text (String.singleton c)) n
      | .map entries => entry entries (.int n)
      | _ => .error .wrongKind
  else
    match v with
    | .map entries => entry entries (.text (String.ofList key))
    | _ => .error .wrongKind

/-- The values that a template may name. -/
abbrev Names := List (String × Value)

/-- Follow the steps of a path in turn; a step that is not well written counts when it is reached.
`fuel` bounds their number. -/
def follow : Nat → Value → List Char → Except Fault Value
  | _, v, [] => .ok v
  | 0, v, _ => .ok v
  | fuel + 1, v, '.' :: cs =>
    let (name, rest) := spanName cs
    if name.isEmpty then .error .malformed
    else do follow fuel (← attributeOf v name) rest
  | fuel + 1, v, '[' :: cs =>
    match Text.cutAt? ']' cs with
    | none => .error .malformed
    | some (key, rest) =>
      if key.isEmpty then .error .malformed
      else do follow fuel (← itemOf v key) rest
  | _ + 1, _, _ => .error .malformed

/-- The value that a path names. Values have names, not places. -/
def resolve (names : Names) (path : List Char) : Except Fault Value :=
  let (name, rest) := spanName path
  if name.isEmpty || isPlace name then .error .malformed
  else
    let key := String.ofList name
    let v := (names.lookup key).getD (.text ("\x7b" ++ key ++ "\x7d"))
    follow path.length v rest

/-- Apply the conversion with a letter: the plain text, the literal, or the literal in ASCII. -/
def convert (v : Value) : Option Char → Except Fault Value
  | none => .ok v
  | some 's' => .ok (.text v.plain)
  | some 'r' => .ok (.text v.literal)
  | some 'a' => .ok (.text (Text.asciiEscaped v.literal))
  | some _ => .error .malformed

/-- Write a template. `depth` bounds how deep fields may nest, `fuel` the number of pieces. -/
def render (names : Names) : Nat → Nat → List Char → Except Fault (List Char)
  | _, 0, _ => .ok []
  | depth, fuel + 1, cs => do
    match ← piece? cs with
    | none => .ok []
    | some (.plain c, rest) => do .ok (c :: (← render names depth fuel rest))
    | some (.field f, rest) => do
      let v ← resolve names f.path
      let v ← convert v f.conversion
      let layout ← if f.nested then
          match depth with
          | 0 => .error .malformed
          | d + 1 => render names d fuel f.layout
        else .ok f.layout
      let text ← layOut layout v
      .ok (text ++ (← render names depth fuel rest))

/-- Write a template with named values. -/
def format (names : Names) (template : String) : Except Fault String :=
  let cs := template.toList
  (render names 1 (cs.length + 1) cs).map String.ofList

end TableAudit.Message
