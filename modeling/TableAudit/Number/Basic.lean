import TableAudit.Number.Shortest

/-!
# Numbers

Integers of any size beside doubles. An integer and a double are compared by their exact values,
so no rounding can make different numbers equal.
-/

namespace TableAudit

open TableAudit.Number (Binary64 scaled)

/-- An integer of any size or a double. -/
inductive Number
  | int (n : Int)
  | float (x : Binary64)
deriving DecidableEq, Repr, Inhabited

namespace Number

/-- The order of two numbers; an undefined double is in no order with anything. -/
def compare? : Number → Number → Option Ordering
  | .int m, .int n => some (compare m n)
  | .int m, .float y => (y.compareInt? m).map Ordering.swap
  | .float x, .int n => x.compareInt? n
  | .float x, .float y => x.compare? y

/-- Strictly less. -/
def lt (a b : Number) : Bool :=
  a.compare? b == some .lt

/-- Less or equal. -/
def le (a b : Number) : Bool :=
  let o := a.compare? b
  o == some .lt || o == some .eq

/-- Equal in value. -/
def eqv (a b : Number) : Bool :=
  a.compare? b == some .eq

/-- The first number unless the second is less. -/
def min (a b : Number) : Number :=
  if b.lt a then b else a

/-- Twice the number. -/
def double : Number → Number
  | .int n => .int (n * 2)
  | .float x => .float (x.mul (Binary64.ofInt 2))

/-- The double nearest to the number, unless an integer is too large for one. -/
def toDouble? : Number → Option Binary64
  | .float x => some x
  | .int n =>
    let x := Binary64.ofInt n
    if x.isFinite then some x else none

/-- The quotient by a positive integer as a double, unless it is too large for one. -/
def divNat? (a : Number) (d : Nat) : Option Binary64 :=
  match a with
  | .int n =>
    let x := Binary64.ofRatio (n < 0) n.natAbs d
    if x.isFinite then some x else none
  | .float x => some (x.div (Binary64.ofInt d))

/-- Whether the number has no fraction. -/
def isIntegral : Number → Bool
  | .int _ => true
  | .float x => x.isIntegral

/-- The number without its sign. -/
def abs : Number → Number
  | .int n => .int n.natAbs
  | .float x => .float x.abs

/-- The text of a number. -/
def text : Number → String
  | .int n => toString n
  | .float x => x.text

end Number

end TableAudit
