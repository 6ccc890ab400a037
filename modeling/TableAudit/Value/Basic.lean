import TableAudit.Calendar.Moment
import TableAudit.Number.Basic

/-!
# Dynamic values

The values that cells, rule objects and documents hold: nothing, truth values, integers of any
size, doubles, texts, bytes, dates and moments, sequences and mappings. A mapping keeps its
entries in order of first insertion, with any values as keys. Integers and doubles are the numbers
among the values; truth values are not.
-/

namespace TableAudit

open TableAudit.Number (Binary64)
open TableAudit.Calendar (Date Moment)

/-- A dynamic value. A `stamp` is a moment as a table library keeps it, `noStamp` its missing
moment, and a `record` a value with named attributes that is no mapping. -/
inductive Value
  | null
  | bool (b : Bool)
  | int (n : Int)
  | float (x : Binary64)
  | text (s : String)
  | bytes (b : List UInt8)
  | date (d : Date)
  | moment (m : Moment)
  | stamp (m : Moment)
  | noStamp
  | list (items : List Value)
  | tuple (items : List Value)
  | map (entries : List (Value × Value))
  | record (attributes : List (String × Value))
deriving Inhabited, Repr

namespace Value

/-- The number that a truth value counts as. -/
def ofBool (b : Bool) : Int :=
  if b then 1 else 0

/-- Equality of an integer and a double. -/
def intEqFloat (n : Int) (x : Binary64) : Bool :=
  x.compareInt? n == some .eq

/-- Equality of moments: of instants where both have an offset, of local clocks where neither
has one. -/
def momentEq (a b : Moment) : Bool :=
  match a.instant?, b.instant? with
  | some s, some t => s == t
  | none, none => a.localMicros == b.localMicros
  | _, _ => false

mutual

/-- Equality of values. Numbers are compared by value across kinds, a truth value counting as 0
or 1; sequences of one kind are compared item by item, mappings by their keys. -/
def eqv : Value → Value → Bool
  | null, null => true
  | bool a, bool b => a == b
  | bool a, int n => ofBool a == n
  | int n, bool a => n == ofBool a
  | bool a, float x => intEqFloat (ofBool a) x
  | float x, bool a => intEqFloat (ofBool a) x
  | int m, int n => m == n
  | int m, float x => intEqFloat m x
  | float x, int m => intEqFloat m x
  | float x, float y => x.compare? y == some .eq
  | text a, text b => a == b
  | bytes a, bytes b => a == b
  | date a, date b => decide (a = b)
  | moment a, moment b => momentEq a b
  | moment a, stamp b => momentEq a b
  | stamp a, moment b => momentEq a b
  | stamp a, stamp b => momentEq a b
  | list a, list b => eqvAll a b
  | tuple a, tuple b => eqvAll a b
  | map a, map b => a.length == b.length && subsumed a b
  | _, _ => false

/-- Equality item by item. -/
def eqvAll : List Value → List Value → Bool
  | [], [] => true
  | a :: as, b :: bs => eqv a b && eqvAll as bs
  | _, _ => false

/-- Whether every entry of the first list has an equal one in the second. -/
def subsumed : List (Value × Value) → List (Value × Value) → Bool
  | [], _ => true
  | (k, v) :: es, fs => fs.any (fun f => eqv k f.1 && eqv v f.2) && subsumed es fs

end

/-- Whether a condition takes the value as true: all but nothing, false, zero, the empty text and
empty collections. -/
def isTruthy : Value → Bool
  | null => false
  | bool b => b
  | int n => n ≠ 0
  | float x => !x.isZero
  | text s => !s.isEmpty
  | bytes b => !b.isEmpty
  | list items => !items.isEmpty
  | tuple items => !items.isEmpty
  | map entries => !entries.isEmpty
  | _ => true

/-- The value of a text key in a list of entries. -/
def lookup (entries : List (Value × Value)) (key : String) : Option Value :=
  entries.findSome? fun
    | (text k, v) => if k = key then some v else none
    | _ => none

/-- The value of a text key in a mapping. -/
def get? : Value → String → Option Value
  | map entries, key => lookup entries key
  | _, _ => none

/-- The value of a text key in a mapping, nothing where it is missing. -/
def get (v : Value) (key : String) : Value :=
  (v.get? key).getD null

/-- Whether a mapping has a text key. -/
def has (v : Value) (key : String) : Bool :=
  (v.get? key).isSome

/-- Enter a key: an equal key keeps its place and first spelling and takes the new value, a new
key comes last. -/
def insert : List (Value × Value) → Value → Value → List (Value × Value)
  | [], k, v => [(k, v)]
  | (k', v') :: es, k, v => if eqv k' k then (k', v) :: es else (k', v') :: insert es k v

/-- The mapping that arises by entering pairs in turn. -/
def ofPairs (pairs : List (Value × Value)) : List (Value × Value) :=
  pairs.foldl (fun es p => insert es p.1 p.2) []

/-- Whether the value is a mapping. -/
def isMap : Value → Bool
  | map _ => true
  | _ => false

/-- Whether the value is a text. -/
def isText : Value → Bool
  | text _ => true
  | _ => false

/-- Whether the value is a list. -/
def isList : Value → Bool
  | list _ => true
  | _ => false

/-- The text, if the value is one. -/
def text? : Value → Option String
  | text s => some s
  | _ => none

/-- A mapping from text keys. -/
def object (fields : List (String × Value)) : Value :=
  map (fields.map fun f => (text f.1, f.2))

/-- A value that may be missing. -/
def ofOption (f : α → Value) : Option α → Value
  | none => null
  | some a => f a

end Value

/-- A number as a value. -/
def Number.toValue : Number → Value
  | .int n => .int n
  | .float x => .float x

/-- The number, if the value is one. -/
def Value.number? : Value → Option Number
  | .int n => some (.int n)
  | .float x => some (.float x)
  | _ => none

end TableAudit
