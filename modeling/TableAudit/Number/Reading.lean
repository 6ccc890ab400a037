import TableAudit.Number.Basic
import TableAudit.Text.Basic
import TableAudit.Fault

/-!
# Numbers in texts

Number texts are an optional sign, digits of any script with an optional point, and an optional
exponent. Two readers exist on top of that form: a strict one for a text without anything around
the number, and a tolerant one that skips spaces around the number, allows single underscores
between digits, and knows the words for infinite and undefined numbers.
-/

namespace TableAudit.Number

open TableAudit.Text (isDecimalDigit digitsValue isBlank)

/-- The parts of a number text. -/
structure Form where
  negative : Bool
  whole : List Char
  fraction : Option (List Char)
  exponent : Option Int
deriving Repr

/-- The most digits that an integer text may have. -/
def digitLimit : Nat := 4300

namespace Form

/-- Whether the text has neither point nor exponent. -/
def isInteger (f : Form) : Bool :=
  f.fraction.isNone && f.exponent.isNone

/-- The double that the text stands for. -/
def double (f : Form) : Binary64 :=
  let places := f.fraction.getD []
  Binary64.ofDecimal f.negative (digitsValue (f.whole ++ places))
    (f.exponent.getD 0 - places.length)

/-- The integer that a text without point and exponent stands for. -/
def integer (f : Form) : Except Fault Int :=
  if digitLimit < f.whole.length then .error .digitLimit
  else
    let n : Int := digitsValue f.whole
    .ok (if f.negative then -n else n)

end Form

/-- A sign and the rest. -/
def spanSign : List Char → Bool × List Char
  | '-' :: cs => (true, cs)
  | '+' :: cs => (false, cs)
  | cs => (false, cs)

/-- An exponent that fills the whole text, or no text at all. -/
def exponent? : List Char → Option (Option Int)
  | [] => some none
  | c :: cs =>
    if c = 'e' ∨ c = 'E' then
      let (negative, ds) := spanSign cs
      if !ds.isEmpty && ds.all isDecimalDigit then
        let n : Int := digitsValue ds
        some (some (if negative then -n else n))
      else none
    else none

/-- The form of a number text: digits, or digits with a point among, before or after them, then
the exponent. -/
def form? (cs : List Char) : Option Form :=
  let (negative, cs) := spanSign cs
  let (whole, rest) := cs.span isDecimalDigit
  match rest with
  | '.' :: rest =>
    let (places, rest) := rest.span isDecimalDigit
    if whole.isEmpty && places.isEmpty then none
    else (exponent? rest).map fun e => ⟨negative, whole, some places, e⟩
  | _ =>
    if whole.isEmpty then none
    else (exponent? rest).map fun e => ⟨negative, whole, none, e⟩

/-- A space around a number: a blank that is no information separator. -/
def isSpace (c : Char) : Bool :=
  isBlank c && !(28 ≤ c.toNat && c.toNat ≤ 31)

/-- Remove spaces around a number. -/
def unspaced (cs : List Char) : List Char :=
  ((cs.dropWhile isSpace).reverse.dropWhile isSpace).reverse

/-- Remove underscores that stand between two digits; any other underscore spoils the text. -/
def withoutUnderscores? : Bool → List Char → Option (List Char)
  | _, [] => some []
  | afterDigit, '_' :: c :: cs =>
    if afterDigit && isDecimalDigit c then (withoutUnderscores? true cs).map (c :: ·) else none
  | _, c :: cs =>
    if c = '_' then none
    else (withoutUnderscores? (isDecimalDigit c) cs).map (c :: ·)

/-- Read an integer tolerantly. -/
def readInteger (cs : List Char) : Except Fault Int :=
  match withoutUnderscores? false (unspaced cs) >>= form? with
  | some f => if f.isInteger then f.integer else .error .malformed
  | none => .error .malformed

/-- The words for numbers that are not finite. -/
def wordValue? (cs : List Char) : Option Binary64 :=
  let (negative, word) := spanSign (cs.map Char.toLower)
  if word = "inf".toList ∨ word = "infinity".toList then some (.infinity negative)
  else if word = "nan".toList then some .nan
  else none

/-- Read a double tolerantly. -/
def readDouble? (cs : List Char) : Option Binary64 :=
  let cs := unspaced cs
  match wordValue? cs with
  | some x => some x
  | none => (withoutUnderscores? false cs >>= form?).map Form.double

end TableAudit.Number
