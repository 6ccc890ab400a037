import TableAudit.Calendar.Directive
import TableAudit.Number.Basic
import TableAudit.Number.Notation
import TableAudit.Text.Basic
import TableAudit.Fault
import TableAudit.Value.Text

/-!
# Layouts of values

A layout says how a value is written into a message: fill and alignment, sign, width, grouping of
digits, precision, and a presentation. Texts know alignment, width and a longest length; numbers
know all presentations. The layout of a date or a moment is a text with directives. Values of other
kinds have no layout but the empty one.
-/

namespace TableAudit.Message

open TableAudit.Number (Binary64)

/-- Where a value stands in its width; `inner` fills between the sign and the digits. -/
inductive Align
  | left
  | right
  | center
  | inner
deriving DecidableEq, Repr

/-- The sign of numbers that are not negative. -/
inductive Sign
  | minusOnly
  | plus
  | space
deriving DecidableEq, Repr

/-- A layout as it is written. -/
structure Layout where
  fill : Char
  align : Align
  sign : Option Sign
  plainZero : Bool
  alternate : Bool
  width : Option Nat
  group : Option Char
  precision : Option Nat
  presentation : Option Char
deriving Repr

/-- The alignment with a letter. -/
def align? : Char → Option Align
  | '<' => some .left
  | '>' => some .right
  | '^' => some .center
  | '=' => some .inner
  | _ => none

/-- The sign with a letter. -/
def sign? : Char → Option Sign
  | '-' => some .minusOnly
  | '+' => some .plus
  | ' ' => some .space
  | _ => none

/-- The most a width or precision may be. -/
def sizeLimit : Nat := 9223372036854775807

/-- The number at the front, if there is one, and the rest. -/
def spanSize (cs : List Char) : Except Fault (Option Nat × List Char) :=
  let (ds, rest) := cs.span Text.isDecimalDigit
  if ds.isEmpty then .ok (none, rest)
  else
    let n := Text.digitsValue ds
    if sizeLimit < n then .error .malformed else .ok (some n, rest)

/-- The presentations that digits may be grouped in by threes. -/
def groupable : List (Option Char) :=
  [none, some 'd', some 'e', some 'f', some 'g', some 'E', some 'G', some '%', some 'F']

/-- Whether a grouping mark goes with a presentation. -/
def groupAllowed (mark : Char) (presentation : Option Char) : Bool :=
  groupable.contains presentation ||
    (mark == '_' && [some 'b', some 'o', some 'x', some 'X'].contains presentation)

/-- Fill and alignment at the front, and the rest. -/
def spanAlign : List Char → Option Char × Option Align × List Char
  | c :: d :: cs =>
    match align? d with
    | some a => (some c, some a, cs)
    | none =>
      match align? c with
      | some a => (none, some a, d :: cs)
      | none => (none, none, c :: d :: cs)
  | [c] =>
    match align? c with
    | some a => (none, some a, [])
    | none => (none, none, [c])
  | [] => (none, none, [])

/-- A character at the front, if it is the given one, and the rest. -/
def spanFlag (mark : Char) : List Char → Bool × List Char
  | c :: cs => if c = mark then (true, cs) else (false, c :: cs)
  | [] => (false, [])

/-- The layout that a text spells, for values that stand at `side` unless it says otherwise and
have the presentation `usual`. -/
def Layout.read (side : Align) (usual : Option Char) (cs : List Char) : Except Fault Layout := do
  let (fill, align, cs) := spanAlign cs
  let (sign, cs) := match cs with
    | c :: rest => if (sign? c).isSome then (sign? c, rest) else (none, cs)
    | [] => (none, cs)
  let (plainZero, cs) := spanFlag 'z' cs
  let (alternate, cs) := spanFlag '#' cs
  let (zero, cs) := if fill.isSome then (false, cs) else spanFlag '0' cs
  let fill := if zero then '0' else fill.getD ' '
  let align := if zero && align.isNone && side == .right then Align.inner else align.getD side
  let (width, cs) ← spanSize cs
  let (comma, cs) := spanFlag ',' cs
  let (underscore, cs) := spanFlag '_' cs
  if comma && underscore then throw .malformed
  if underscore && (spanFlag ',' cs).1 then throw .malformed
  let group := if comma then some ',' else if underscore then some '_' else none
  let (point, cs) := spanFlag '.' cs
  let (precision, cs) ← if point then spanSize cs else pure (none, cs)
  if point && precision.isNone then throw .malformed
  let presentation ← match cs with
    | [] => pure usual
    | [c] => pure (some c)
    | _ => throw .malformed
  match group with
  | some mark => if !groupAllowed mark presentation then throw .malformed
  | none => pure ()
  return ⟨fill, align, sign, plainZero, alternate, width, group, precision, presentation⟩

/-- Fill before and after so much text. -/
def padding (l : Layout) (length : Nat) : Nat × Nat :=
  let missing := (l.width.getD 0) - length
  match l.align with
  | .left => (0, missing)
  | .right => (missing, 0)
  | .center => (missing / 2, missing - missing / 2)
  | .inner => (missing, 0)

/-- A text in its layout. -/
def Layout.text (l : Layout) (s : List Char) : Except Fault (List Char) :=
  if l.presentation != some 's' || l.sign.isSome || l.plainZero || l.alternate ||
      l.align == .inner then .error .malformed
  else
    let s := match l.precision with
      | some n => s.take n
      | none => s
    let (before, after) := padding l s.length
    .ok (List.replicate before l.fill ++ s ++ List.replicate after l.fill)

/-- Digits in groups from the end. -/
def grouped (mark : Char) (size : Nat) (ds : List Char) : List Char :=
  ((ds.reverse.zipIdx.map fun (c, i) =>
    if i ≠ 0 ∧ i % size = 0 then [mark, c] else [c]).map List.reverse).reverse.flatten

/-- Digits in groups, filled with zeros to at least a width; a group mark does not come first. -/
def groupedTo (mark : Char) (size width : Nat) (ds : List Char) : List Char :=
  let plain := grouped mark size ds
  if width ≤ plain.length then plain
  else
    let whole := width / (size + 1)
    let rest := width % (size + 1)
    let count := whole * size + (if rest = 0 then 1 else rest)
    grouped mark size (List.replicate (count - ds.length) '0' ++ ds)

/-- The parts of a written number: its sign, a mark of its base, the digits that may be grouped,
and what follows them. -/
structure Written where
  sign : List Char
  base : List Char
  digits : List Char
  rest : List Char

/-- The sign that is written before a number. -/
def signText (negative : Bool) : Option Sign → List Char
  | some .plus => [if negative then '-' else '+']
  | some .space => [if negative then '-' else ' ']
  | _ => if negative then ['-'] else []

/-- A written number in its layout; the size of groups is given. -/
def Layout.place (l : Layout) (groupSize : Nat) (w : Written) : List Char :=
  let others := w.sign.length + w.base.length + w.rest.length
  let digits := match l.group with
    | none => w.digits
    | some mark =>
      if w.digits.isEmpty then []
      else
        let least := if l.fill = '0' ∧ l.align = .inner then (l.width.getD 0) - others else 0
        groupedTo mark groupSize least w.digits
  let (before, after) := padding l (others + digits.length)
  let fill (n : Nat) := List.replicate n l.fill
  match l.align with
  | .inner => w.sign ++ w.base ++ fill before ++ digits ++ w.rest
  | _ => fill before ++ w.sign ++ w.base ++ digits ++ w.rest ++ fill after

/-- A double without its sign, in a presentation with a precision. -/
def magnitudeText (presentation : Char) (precision : Option Nat) (alternate decimal : Bool) :
    Binary64 → List Char
  | .nan => if presentation.isUpper then "NAN".toList else "nan".toList
  | .infinity _ => if presentation.isUpper then "INF".toList else "inf".toList
  | .finite _ m e =>
    match presentation with
    | 'e' => Binary64.exponential alternate 'e' (precision.getD 6) m e
    | 'E' => Binary64.exponential alternate 'E' (precision.getD 6) m e
    | 'g' => Binary64.general ⟨'e', alternate, decimal⟩ (precision.getD 6) m e
    | 'G' => Binary64.general ⟨'E', alternate, decimal⟩ (precision.getD 6) m e
    | 'r' =>
      let (ds, rest) := (Binary64.finite false m e).text.toList.span (·.isDigit)
      if alternate && rest.head? != some '.' then ds ++ '.' :: rest else ds ++ rest
    | _ => Binary64.fixed alternate (precision.getD 6) m e

/-- Whether a number is written with a minus sign. -/
def isNegative : Binary64 → Bool
  | .nan => false
  | .infinity s => s
  | .finite s _ _ => s

/-- The digits at the front of a written double are its whole part. -/
def writtenDouble (sign : List Char) (body tail : List Char) : Written :=
  let (whole, rest) := body.span (·.isDigit)
  ⟨sign, [], whole, rest ++ tail⟩

/-- A double in its layout. -/
def Layout.double (l : Layout) (x : Binary64) : Except Fault (List Char) :=
  let draw (presentation : Char) (decimal : Bool) (x : Binary64) (tail : List Char) :=
    let body := magnitudeText presentation l.precision l.alternate decimal x
    let zero := l.plainZero && body.all fun c => !('1' ≤ c && c ≤ '9')
    let negative := isNegative x && !(zero && x.isFinite)
    l.place 3 (writtenDouble (signText negative l.sign) body tail)
  match l.presentation with
  | none => .ok (draw (if l.precision.isSome then 'g' else 'r') true x [])
  | some 'n' => .ok (draw 'g' false x [])
  | some '%' => .ok (draw 'f' false (x.mul (Binary64.ofInt 100)) ['%'])
  | some c =>
    if ['e', 'E', 'f', 'F', 'g', 'G'].contains c then .ok (draw c false x []) else .error .malformed

/-- Base and mark of an integer's presentation. -/
def base? : Char → Option (Nat × List Char)
  | 'd' => some (10, [])
  | 'n' => some (10, [])
  | 'b' => some (2, ['0', 'b'])
  | 'o' => some (8, ['0', 'o'])
  | 'x' => some (16, ['0', 'x'])
  | 'X' => some (16, ['0', 'X'])
  | _ => none

/-- An integer as a character. -/
def Layout.character (l : Layout) (n : Int) : Except Fault (List Char) :=
  if l.sign.isSome || l.alternate then .error .malformed
  else if n < 0 ∨ 0x10FFFF < n then .error .outOfRange
  else .ok (l.place 3 ⟨[], [], [], [Char.ofNat n.toNat]⟩)

/-- An integer in its layout. -/
def Layout.integer (l : Layout) (n : Int) : Except Fault (List Char) :=
  let presentation := l.presentation.getD 'd'
  if ['e', 'E', 'f', 'F', 'g', 'G', '%'].contains presentation then
    match (Number.int n).toDouble? with
    | some x => l.double x
    | none => .error .outOfRange
  else if presentation = 'c' then
    if l.precision.isSome || l.plainZero then .error .malformed else l.character n
  else
    match base? presentation with
    | none => .error .malformed
    | some (base, mark) =>
      if l.precision.isSome || l.plainZero then .error .malformed
      else
        let ds := Nat.toDigits base n.natAbs
        let ds := if presentation = 'X' then ds.map Char.toUpper else ds
        .ok (l.place (if base = 10 then 3 else 4)
          ⟨signText (n < 0) l.sign, if l.alternate then mark else [], ds, []⟩)

/-- A value in the layout that a text spells. -/
def layOut (spec : List Char) (v : Value) : Except Fault (List Char) :=
  if spec.isEmpty then .ok v.plain.toList
  else
    match v with
    | .text s => do (← Layout.read .left (some 's') spec).text s.toList
    | .int n => do (← Layout.read .right (some 'd') spec).integer n
    | .bool b => do (← Layout.read .right (some 'd') spec).integer (Value.ofBool b)
    | .float x => do (← Layout.read .right none spec).double x
    | .date d => .ok (Calendar.Directive.write ⟨d, 0, none⟩ spec)
    | .moment m => .ok (Calendar.Directive.write m spec)
    | .stamp m => .ok (Calendar.Directive.write m spec)
    | .noStamp => .error .malformed
    | _ => .error .wrongKind

end TableAudit.Message
