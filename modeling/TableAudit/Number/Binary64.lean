/-!
# Double-precision numbers

A double is kept as the exact number it stands for: a sign, a 53-bit mantissa and a power of two.
Every operation computes the exact result and rounds it once, to the nearest double, a tie going
to the even mantissa. Quotients of natural numbers are rounded in the same way; powers of two and
ten with integer exponents enter as factors of the numerator or of the denominator.
-/

namespace TableAudit.Number

/-- The integer nearest to `num / den`; of two equally near ones the even one. -/
def divEven (num den : Nat) : Nat :=
  let q := num / den
  let r := num % den
  if 2 * r < den then q
  else if den < 2 * r then q + 1
  else if q % 2 = 0 then q else q + 1

/-- Numerator and denominator of `num / den * base ^ e`. -/
def scaled (base num den : Nat) (e : Int) : Nat × Nat :=
  if 0 ≤ e then (num * base.pow e.toNat, den) else (num, den * base.pow (-e).toNat)

/-- The largest `e` with `2 ^ e ≤ num / den`, for positive `num` and `den`. -/
def binaryMagnitude (num den : Nat) : Int :=
  let k : Int := (num.log2 : Int) - (den.log2 : Int)
  let s := scaled 2 num den (-k)
  if s.2 ≤ s.1 then k else k - 1

/-- How many decimal digits a number has; zero has one. -/
def decimalLength (n : Nat) : Nat :=
  (Nat.toDigits 10 n).length

/-- A double-precision number. A finite one is `± mantissa * 2 ^ exponent`, where the mantissa
has 53 bits unless the exponent is the least one. -/
inductive Binary64
  | nan
  | infinity (negative : Bool)
  | finite (negative : Bool) (mantissa : Nat) (exponent : Int)
deriving DecidableEq, Inhabited, Repr

namespace Binary64

/-- The exponent of the subnormal numbers. -/
def leastExponent : Int := -1074

/-- The exponent of the largest finite numbers. -/
def greatestExponent : Int := 971

/-- Zero with a sign. -/
def zero (negative : Bool) : Binary64 :=
  .finite negative 0 leastExponent

/-- The double nearest to `± num / den`, for positive `den`. -/
def ofRatio (negative : Bool) (num den : Nat) : Binary64 :=
  if num = 0 then zero negative
  else
    let e := max (binaryMagnitude num den - 52) leastExponent
    let s := scaled 2 num den (-e)
    let m := divEven s.1 s.2
    let r := if m = Nat.pow 2 53 then (Nat.pow 2 52, e + 1) else (m, e)
    if greatestExponent < r.2 then .infinity negative else .finite negative r.1 r.2

/-- The double nearest to `n * 2 ^ e`; a zero has the given sign. -/
def ofScaled (zeroNegative : Bool) (n e : Int) : Binary64 :=
  if n = 0 then zero zeroNegative
  else
    let s := scaled 2 n.natAbs 1 e
    ofRatio (n < 0) s.1 s.2

/-- The double nearest to an integer, infinite when the integer is too large. -/
def ofInt (n : Int) : Binary64 :=
  ofScaled false n 0

/-- The double nearest to `± digits * 10 ^ e`. Far beyond the range of doubles the power is not
computed. -/
def ofDecimal (negative : Bool) (digits : Nat) (e : Int) : Binary64 :=
  if digits = 0 then zero negative
  else
    let size := (decimalLength digits : Int) + e
    if 400 < size then .infinity negative
    else if size < -400 then zero negative
    else
      let s := scaled 10 digits 1 e
      ofRatio negative s.1 s.2

/-- Whether the number is neither infinite nor undefined. -/
def isFinite : Binary64 → Bool
  | .finite .. => true
  | _ => false

/-- Whether the number is undefined. -/
def isNaN : Binary64 → Bool
  | .nan => true
  | _ => false

/-- Either zero. -/
def isZero : Binary64 → Bool
  | .finite _ m _ => m = 0
  | _ => false

/-- The number with the opposite sign. -/
def neg : Binary64 → Binary64
  | .nan => .nan
  | .infinity s => .infinity !s
  | .finite s m e => .finite (!s) m e

/-- The number without its sign. -/
def abs : Binary64 → Binary64
  | .nan => .nan
  | .infinity _ => .infinity false
  | .finite _ m e => .finite false m e

/-- Mantissa with sign. -/
def signedMantissa (negative : Bool) (m : Nat) : Int :=
  if negative then -(m : Int) else m

/-- Order of `a * 2 ^ e` and `b * 2 ^ f`. -/
def compareScaled (a e b f : Int) : Ordering :=
  let low := min e f
  compare (a * Int.pow 2 (e - low).toNat) (b * Int.pow 2 (f - low).toNat)

/-- The order of two numbers; an undefined one is in no order with anything. -/
def compare? : Binary64 → Binary64 → Option Ordering
  | .nan, _ => none
  | _, .nan => none
  | .infinity s, .infinity t => some (compare (if s then 0 else 1) (if t then 0 else 1))
  | .infinity s, .finite .. => some (if s then .lt else .gt)
  | .finite .., .infinity t => some (if t then .gt else .lt)
  | .finite s m e, .finite t n f =>
    some (compareScaled (signedMantissa s m) e (signedMantissa t n) f)

/-- The order of a double and an integer, without rounding the integer. -/
def compareInt? (x : Binary64) (n : Int) : Option Ordering :=
  match x with
  | .nan => none
  | .infinity s => some (if s then .lt else .gt)
  | .finite s m e => some (compareScaled (signedMantissa s m) e n 0)

/-- Sum, rounded once. -/
def add : Binary64 → Binary64 → Binary64
  | .nan, _ => .nan
  | _, .nan => .nan
  | .infinity s, .infinity t => if s = t then .infinity s else .nan
  | .infinity s, .finite .. => .infinity s
  | .finite .., .infinity t => .infinity t
  | .finite s m e, .finite t n f =>
    let low := min e f
    ofScaled (s && t)
      (signedMantissa s m * Int.pow 2 (e - low).toNat +
        signedMantissa t n * Int.pow 2 (f - low).toNat) low

/-- Difference, rounded once. -/
def sub (x y : Binary64) : Binary64 :=
  x.add y.neg

/-- Product, rounded once. -/
def mul : Binary64 → Binary64 → Binary64
  | .nan, _ => .nan
  | _, .nan => .nan
  | .infinity s, .infinity t => .infinity (s != t)
  | .infinity s, .finite t n _ => if n = 0 then .nan else .infinity (s != t)
  | .finite s m _, .infinity t => if m = 0 then .nan else .infinity (s != t)
  | .finite s m e, .finite t n f =>
    let s' := s != t
    ofScaled s' (signedMantissa s' (m * n)) (e + f)

/-- Quotient, rounded once. -/
def div : Binary64 → Binary64 → Binary64
  | .nan, _ => .nan
  | _, .nan => .nan
  | .infinity _, .infinity _ => .nan
  | .infinity s, .finite t _ _ => .infinity (s != t)
  | .finite s _ _, .infinity t => zero (s != t)
  | .finite s m e, .finite t n f =>
    if n = 0 then if m = 0 then .nan else .infinity (s != t)
    else
      let r := scaled 2 m n (e - f)
      ofRatio (s != t) r.1 r.2

/-- Numerator and denominator of the magnitude of a finite number. -/
def magnitude (m : Nat) (e : Int) : Nat × Nat :=
  scaled 2 m 1 e

/-- The integer part, toward zero, of a finite number. -/
def truncate? : Binary64 → Option Int
  | .finite s m e =>
    let r := magnitude m e
    some (signedMantissa s (r.1 / r.2))
  | _ => none

/-- The nearest integer of a finite number, a half going to the even one. -/
def roundEven? : Binary64 → Option Int
  | .finite s m e =>
    let r := magnitude m e
    some (signedMantissa s (divEven r.1 r.2))
  | _ => none

/-- Whether the number is finite and has no fraction. -/
def isIntegral : Binary64 → Bool
  | .finite _ m e =>
    let r := magnitude m e
    r.1 % r.2 = 0
  | _ => false

/-- The nearest integer to `x * 10 ^ places` of a finite number. -/
def scaledRound? (places : Nat) : Binary64 → Option Int
  | .finite s m e =>
    let r := magnitude (m * Nat.pow 10 places) e
    some (signedMantissa s (divEven r.1 r.2))
  | _ => none

/-- The double nearest to `x`, rounded to a number of decimal places. -/
def roundPlaces (places : Nat) (x : Binary64) : Binary64 :=
  match x with
  | .finite s _ _ =>
    match x.scaledRound? places with
    | some n => ofDecimal s n.natAbs (-(places : Int))
    | none => x
  | _ => x

end Binary64

end TableAudit.Number
