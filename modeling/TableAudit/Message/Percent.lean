import TableAudit.Message.Layout

/-!
# Percent formats

A percent format is a text in which a percent sign begins a place for a value: an optional key in
parentheses, flags, a least width, a precision, and the letter of a conversion. Values are taken
in order, or by key from one mapping. A width or precision may be a star, which takes its number
from the values.
-/

namespace TableAudit.Message.Percent

open TableAudit.Number (Binary64)

/-- The flags of a place. -/
structure Flags where
  left : Bool
  plus : Bool
  space : Bool
  alternate : Bool
  zero : Bool

/-- No flags. -/
def Flags.none : Flags := ⟨false, false, false, false, false⟩

/-- The flags at the front and the rest. -/
def spanFlags : Flags → List Char → Flags × List Char
  | f, '-' :: cs => spanFlags { f with left := true } cs
  | f, '+' :: cs => spanFlags { f with plus := true } cs
  | f, ' ' :: cs => spanFlags { f with space := true } cs
  | f, '#' :: cs => spanFlags { f with alternate := true } cs
  | f, '0' :: cs => spanFlags { f with zero := true } cs
  | f, cs => (f, cs)

/-- A place as it is written, numbers for stars already filled in. -/
structure Place where
  flags : Flags
  width : Nat
  precision : Option Nat
  conversion : Char

/-- What is left to be formatted: the values not yet taken, or a mapping. -/
structure Supply where
  values : List Value
  mapping : Option Value

/-- Take the next value. -/
def Supply.take (s : Supply) : Except Fault (Value × Supply) :=
  match s.values with
  | v :: vs => .ok (v, { s with values := vs })
  | [] => .error .wrongKind

/-- Take an integer for a star. -/
def Supply.takeInt (s : Supply) : Except Fault (Int × Supply) := do
  match ← s.take with
  | (.int n, s) => .ok (n, s)
  | (.bool b, s) => .ok (Value.ofBool b, s)
  | _ => .error .wrongKind

/-- Text in a width. -/
def pad (p : Place) (body : List Char) : List Char :=
  let missing := List.replicate (p.width - body.length) ' '
  if p.flags.left then body ++ missing else missing ++ body

/-- A number in a width: zeros go between sign or base and the digits. -/
def padNumber (p : Place) (sign base digits : List Char) : List Char :=
  let missing := p.width - (sign.length + base.length + digits.length)
  if p.flags.left then sign ++ base ++ digits ++ List.replicate missing ' '
  else if p.flags.zero then sign ++ base ++ List.replicate missing '0' ++ digits
  else List.replicate missing ' ' ++ sign ++ base ++ digits

/-- The sign of a number. -/
def signOf (p : Place) (negative : Bool) : List Char :=
  if negative then ['-'] else if p.flags.plus then ['+'] else if p.flags.space then [' '] else []

/-- An integer in base ten, eight or sixteen. -/
def integer (p : Place) (n : Int) : List Char :=
  let (base, mark) := match p.conversion with
    | 'o' => (8, ['0', 'o'])
    | 'x' => (16, ['0', 'x'])
    | 'X' => (16, ['0', 'X'])
    | _ => (10, [])
  let ds := Nat.toDigits base n.natAbs
  let ds := if p.conversion = 'X' then ds.map Char.toUpper else ds
  let ds := List.replicate ((p.precision.getD 0) - ds.length) '0' ++ ds
  padNumber p (signOf p (n < 0)) (if p.flags.alternate then mark else []) ds

/-- A double. -/
def double (p : Place) (x : Binary64) : List Char :=
  padNumber p (signOf p (isNegative x)) []
    (magnitudeText p.conversion (some (p.precision.getD 6)) p.flags.alternate false x)

/-- The integer that a number counts as; a fraction is cut off. -/
def wholeOf : Value → Except Fault Int
  | .int n => .ok n
  | .bool b => .ok (Value.ofBool b)
  | .float .nan => .error .undefinedNumber
  | .float x =>
    match x.truncate? with
    | some n => .ok n
    | none => .error .outOfRange
  | _ => .error .wrongKind

/-- The double that a number counts as. -/
def doubleOf : Value → Except Fault Binary64
  | .float x => .ok x
  | .bool b => .ok (Binary64.ofInt (Value.ofBool b))
  | .int n =>
    match (Number.int n).toDouble? with
    | some x => .ok x
    | none => .error .outOfRange
  | _ => .error .wrongKind

/-- A character, or the character of a number. -/
def character : Value → Except Fault (List Char)
  | .text s => if s.length = 1 then .ok s.toList else .error .wrongKind
  | .int n => if n < 0 ∨ 0x10FFFF < n then .error .outOfRange else .ok [Char.ofNat n.toNat]
  | .bool b => .ok [Char.ofNat (Value.ofBool b).toNat]
  | _ => .error .wrongKind

/-- A text cut to the precision. -/
def cut (p : Place) (s : String) : List Char :=
  match p.precision with
  | some n => s.toList.take n
  | none => s.toList

/-- A value in its place. -/
def fill (p : Place) (v : Value) : Except Fault (List Char) :=
  match p.conversion with
  | 's' => .ok (pad p (cut p v.plain))
  | 'r' => .ok (pad p (cut p v.literal))
  | 'a' => .ok (pad p (cut p (Text.asciiEscaped v.literal)))
  | 'c' => (character v).map (pad p)
  | 'd' => (wholeOf v).map (integer p)
  | 'i' => (wholeOf v).map (integer p)
  | 'u' => (wholeOf v).map (integer p)
  | c =>
    if c = 'o' ∨ c = 'x' ∨ c = 'X' then
      match v with
      | .int n => .ok (integer p n)
      | .bool b => .ok (integer p (Value.ofBool b))
      | _ => .error .wrongKind
    else if ['e', 'E', 'f', 'F', 'g', 'G'].contains c then (doubleOf v).map (double p)
    else .error .malformed

/-- The greatest width. -/
def widthLimit : Nat := 9223372036854775807

/-- The greatest precision. -/
def precisionLimit : Nat := 2147483647

/-- A number or star at the front of a place, and the rest; the number must not be over a
limit. -/
def spanNumber (limit : Nat) (s : Supply) :
    List Char → Except Fault (Option Int × Supply × List Char)
  | '*' :: cs => do
    let (n, s) ← s.takeInt
    if limit < n.natAbs then .error .outOfRange else .ok (some n, s, cs)
  | cs =>
    let (ds, rest) := cs.span (·.isDigit)
    if ds.isEmpty then .ok (none, s, rest)
    else if limit < Text.digitsValue ds then .error .malformed
    else .ok (some (Text.digitsValue ds), s, rest)

/-- A length mark, which says nothing, is skipped. -/
def skipLength : List Char → List Char
  | c :: cs => if c = 'h' ∨ c = 'l' ∨ c = 'L' then cs else c :: cs
  | [] => []

/-- A key in parentheses at the front, and the rest. Parentheses in it are in pairs. -/
def spanKey : Nat → List Char → Option (List Char × List Char)
  | _, [] => none
  | depth, c :: cs =>
    if c = ')' then
      match depth with
      | 0 => some ([], cs)
      | d + 1 => (spanKey d cs).map fun (k, r) => (c :: k, r)
    else if c = '(' then (spanKey (depth + 1) cs).map fun (k, r) => (c :: k, r)
    else (spanKey depth cs).map fun (k, r) => (c :: k, r)

/-- The value of a key of the mapping. -/
def Supply.byKey (s : Supply) (key : List Char) : Except Fault Supply :=
  match s.mapping with
  | some m =>
    match m.get? (String.ofList key) with
    | some v => .ok { s with values := [v] }
    | none => .error .noKey
  | none => .error .wrongKind

/-- A place after its percent sign: its text, the values left, and the rest. -/
def place (s : Supply) (cs : List Char) : Except Fault (List Char × Supply × List Char) := do
  let (s, cs) ← match cs with
    | '(' :: rest =>
      if s.mapping.isNone then .error .wrongKind
      else
        match spanKey 0 rest with
        | some (key, rest) => (s.byKey key).map (·, rest)
        | none => .error .malformed
    | _ => .ok (s, cs)
  let (flags, cs) := spanFlags Flags.none cs
  let (width, s, cs) ← spanNumber widthLimit s cs
  let (precision, s, cs) ← match cs with
    | '.' :: rest => do
      let (n, s, rest) ← spanNumber precisionLimit s rest
      .ok (some (n.getD 0), s, rest)
    | _ => .ok (none, s, cs)
  let width := width.getD 0
  let flags := if width < 0 then { flags with left := true } else flags
  match skipLength cs with
  | [] => .error .malformed
  | c :: rest =>
    let (v, s) ← s.take
    let text ← fill ⟨flags, width.natAbs, precision.map Int.toNat, c⟩ v
    .ok (text, s, rest)

/-- Format a text. `fuel` bounds the number of places and characters. -/
def run : Nat → Supply → List Char → Except Fault (List Char × Supply)
  | _, s, [] => .ok ([], s)
  | 0, s, _ => .ok ([], s)
  | fuel + 1, s, '%' :: '%' :: cs => do
    let (more, s) ← run fuel s cs
    .ok ('%' :: more, s)
  | fuel + 1, s, '%' :: cs => do
    let (text, s, rest) ← place s cs
    let (more, s) ← run fuel s rest
    .ok (text ++ more, s)
  | fuel + 1, s, c :: cs => do
    let (more, s) ← run fuel s cs
    .ok (c :: more, s)

/-- Format a text with values, all of which have to be used; a lone mapping that is not empty is
looked up by keys. -/
def format (template : String) (values : List Value) : Except Fault String := do
  let cs := template.toList
  let mapping := match values with
    | [.map (e :: es)] => some (.map (e :: es))
    | _ => none
  let (text, left) ← run (cs.length + 1) ⟨values, mapping⟩ cs
  if !left.values.isEmpty && mapping.isNone then .error .wrongKind
  else .ok (String.ofList text)

end TableAudit.Message.Percent
