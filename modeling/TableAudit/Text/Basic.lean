/-!
# Blank characters and decimal digits

The blank characters are the white space of the character database together with the four
information separators `U+001C` to `U+001F`. Trimming removes them from both ends of a text; a
text is blank when nothing remains.

Every script with decimal digits has its ten digits in one ascending run, so the runs are given
by their zeros (version 14 of the character database). A digit of any script counts as the digit
of its value.
-/

namespace TableAudit.Text

/-! ### Blank characters -/

/-- White space, the information separators included. -/
def isBlank (c : Char) : Bool :=
  (9 ≤ c.toNat && c.toNat ≤ 13) || (28 ≤ c.toNat && c.toNat ≤ 32) || c.toNat == 0x85 ||
    c.toNat == 0xA0 || c.toNat == 0x1680 || (0x2000 ≤ c.toNat && c.toNat ≤ 0x200A) ||
    c.toNat == 0x2028 || c.toNat == 0x2029 || c.toNat == 0x202F || c.toNat == 0x205F ||
    c.toNat == 0x3000

/-- Remove blanks from the front. -/
def trimLeft (s : List Char) : List Char :=
  s.dropWhile isBlank

/-- Remove blanks from the end. -/
def trimRight (s : List Char) : List Char :=
  (s.reverse.dropWhile isBlank).reverse

/-- Remove blanks from both ends. -/
def trimChars (s : List Char) : List Char :=
  trimRight (trimLeft s)

/-- Remove blanks from both ends of a text. -/
def trim (s : String) : String :=
  String.ofList (trimChars s.toList)

/-- A text of blanks only, or the empty text. -/
def isBlankText (s : String) : Bool :=
  s.toList.all isBlank

/-! ### Decimal digits -/

/-- The code points of the zeros from 128 on. -/
def digitZeros : List Nat := [
  1632, 1776, 1984, 2406, 2534, 2662, 2790, 2918, 3046, 3174, 3302, 3430, 3558, 3664, 3792,
  3872, 4160, 4240, 6112, 6160, 6470, 6608, 6784, 6800, 6992, 7088, 7232, 7248, 42528, 43216,
  43264, 43472, 43504, 43600, 44016, 65296, 66720, 68912, 69734, 69872, 69942, 70096, 70384,
  70736, 70864, 71248, 71360, 71472, 71904, 72016, 72784, 73040, 73120, 92768, 92864, 93008,
  120782, 120792, 120802, 120812, 120822, 123200, 123632, 125264, 130032]

/-- The value of a decimal digit of any script. -/
def digitValue? (c : Char) : Option Nat :=
  if c.toNat < 128 then
    if c.isDigit then some (c.toNat - 48) else none
  else (digitZeros.find? fun z => z ≤ c.toNat && c.toNat < z + 10).map (c.toNat - ·)

/-- A decimal digit of any script. -/
def isDecimalDigit (c : Char) : Bool :=
  (digitValue? c).isSome

/-- The number that a run of digits spells in base ten; characters that are no digit count as
zero. -/
def digitsValue (ds : List Char) : Nat :=
  ds.foldl (fun n c => 10 * n + (digitValue? c).getD 0) 0

end TableAudit.Text
