/-!
# Cutting and searching texts

Texts are handled as lists of characters. Splitting at a separator keeps the empty pieces, so the
pieces joined by the separator give the text back. Lines end with a new line, a carriage return or
both together, and where texts are split also with the other separators of lines and of pages.
-/

namespace TableAudit.Text

/-- Split at every occurrence of a separator. -/
def splitAll (separator : Char) : List Char → List (List Char)
  | [] => [[]]
  | c :: cs =>
    if c = separator then [] :: splitAll separator cs
    else
      match splitAll separator cs with
      | [] => [[c]]
      | piece :: pieces => (c :: piece) :: pieces

/-- What lies before and after the first occurrence of a separator, if it occurs. -/
def cutAt? (separator : Char) : List Char → Option (List Char × List Char)
  | [] => none
  | c :: cs =>
    if c = separator then some ([], cs)
    else (cutAt? separator cs).map fun r => (c :: r.1, r.2)

/-- Whether a run of characters occurs in a text. -/
def containsRun (run : List Char) : List Char → Bool
  | [] => run.isEmpty
  | c :: cs => run.isPrefixOf (c :: cs) || containsRun run cs

/-- Whether a text occurs in another. -/
def occursIn (part whole : String) : Bool :=
  containsRun part.toList whole.toList

/-- Join pieces with a separator. -/
def joinWith (separator : String) (pieces : List String) : String :=
  separator.intercalate pieces

/-- The text without the given run at its front, if it begins with it. -/
def afterRun? : List Char → List Char → Option (List Char)
  | [], cs => some cs
  | _ :: _, [] => none
  | r :: rs, c :: cs => if r = c then afterRun? rs cs else none

/-- Line and column, both from 1, of a position in a text. -/
def lineColumn (cs : List Char) (position : Nat) : Nat × Nat :=
  let before := cs.take position
  let last := before.reverse.takeWhile (· ≠ '\n')
  (before.count '\n' + 1, last.length + 1)

/-- A text whose lines all end with a new line instead of a carriage return. -/
def unifiedLines : List Char → List Char
  | '\r' :: '\n' :: cs => '\n' :: unifiedLines cs
  | '\r' :: cs => '\n' :: unifiedLines cs
  | c :: cs => c :: unifiedLines cs
  | [] => []

/-- A character that ends a line where texts are split. -/
def endsLine (c : Char) : Bool :=
  (10 ≤ c.toNat && c.toNat ≤ 13) || (28 ≤ c.toNat && c.toNat ≤ 30) || c.toNat == 0x85 ||
    c.toNat == 0x2028 || c.toNat == 0x2029

/-- Add a character to the first of some lines. -/
def consLine (c : Char) : List (List Char) → List (List Char)
  | [] => [[c]]
  | line :: lines => (c :: line) :: lines

/-- The lines of a text without the characters that end them. What follows the last end is a line
only if it is not empty. -/
def splitLines : List Char → List (List Char)
  | [] => []
  | '\r' :: '\n' :: cs => [] :: splitLines cs
  | c :: cs => if endsLine c then [] :: splitLines cs else consLine c (splitLines cs)

end TableAudit.Text
