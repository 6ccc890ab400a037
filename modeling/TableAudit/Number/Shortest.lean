import TableAudit.Number.Binary64

/-!
# Shortest decimal text of a double

A finite double is written with the fewest significant digits that read back as the same double,
and with the nearest such digits. The reals that read back form the interval halfway to both
neighbours, its ends included when the mantissa is even. For each number of digits only the two
decimal neighbours of the exact value have to be tried; of two equally near ones the even one wins.

Digits are written positionally for decimal exponents from -4 to 15 and with an exponent of at
least two digits otherwise; a number without a fraction ends in `.0`.
-/

namespace TableAudit.Number

/-- A decimal number `digits * 10 ^ exponent`. -/
structure Decimal where
  digits : Nat
  exponent : Int
deriving DecidableEq, Repr

namespace Decimal

/-- The number without trailing zeros in its digits. -/
def stripZeros (d : Decimal) : Decimal :=
  if 0 < d.digits ∧ d.digits % 10 = 0 then
    stripZeros ⟨d.digits / 10, d.exponent + 1⟩
  else d
termination_by d.digits
decreasing_by all_goals omega

end Decimal

namespace Binary64

/-- Quadruple bounds of the reals that round to `mantissa`, in units of the last place. -/
def roundingBounds (m : Nat) (e : Int) : Nat × Nat :=
  (if m = Nat.pow 2 52 ∧ leastExponent < e then 4 * m - 1 else 4 * m - 2, 4 * m + 2)

/-- Whether `digits * 10 ^ k` rounds to the double `m * 2 ^ e`. -/
def readsBack (m : Nat) (e : Int) (digits : Nat) (k : Int) : Bool :=
  let b := roundingBounds m e
  let lo := scaled 2 b.1 4 e
  let hi := scaled 2 b.2 4 e
  let d := scaled 10 digits 1 k
  if m % 2 = 0 then lo.1 * d.2 ≤ d.1 * lo.2 && d.1 * hi.2 ≤ hi.1 * d.2
  else lo.1 * d.2 < d.1 * lo.2 && d.1 * hi.2 < hi.1 * d.2

/-- The decimal exponent of the first digit of `num / den`, searched from an estimate. -/
def decimalMagnitude (num den : Nat) : Int :=
  let guess : Int := ((num.log2 : Int) - (den.log2 : Int)) * 30103 / 100000
  let above (k : Int) : Bool :=
    let s := scaled 10 num den (-k)
    s.2 ≤ s.1
  if above (guess + 2) then guess + 2
  else if above (guess + 1) then guess + 1
  else if above guess then guess
  else if above (guess - 1) then guess - 1
  else guess - 2

/-- The decimal of at most `n` more digits that reads back, if there is one among the two
neighbours of the exact value on the grid of `10 ^ k`. -/
def onGrid? (m : Nat) (e k : Int) : Option Decimal :=
  let v := magnitude m e
  let s := scaled 10 v.1 v.2 (-k)
  let low := s.1 / s.2
  let lowOk := readsBack m e low k
  let highOk := readsBack m e (low + 1) k
  if lowOk && highOk then
    some ⟨divEven s.1 s.2, k⟩
  else if lowOk then some ⟨low, k⟩
  else if highOk then some ⟨low + 1, k⟩
  else none

/-- Try grids of ever smaller spacing, at most `fuel` of them. -/
def searchGrid (m : Nat) (e : Int) : Nat → Int → Decimal
  | 0, k => ⟨0, k⟩
  | fuel + 1, k =>
    match onGrid? m e k with
    | some d => d
    | none => searchGrid m e fuel (k - 1)

/-- The shortest decimal that reads back as the positive double `m * 2 ^ e`. -/
def shortest (m : Nat) (e : Int) : Decimal :=
  let v := magnitude m e
  (searchGrid m e 18 (decimalMagnitude v.1 v.2)).stripZeros

/-- Digits with a point after the first `1 + exponent` of them. -/
def positional (ds : List Char) (exponent : Int) : List Char :=
  if exponent < 0 then
    '0' :: '.' :: (List.replicate (-exponent - 1).toNat '0' ++ ds)
  else
    let whole := exponent.toNat + 1
    if ds.length ≤ whole then
      ds ++ List.replicate (whole - ds.length) '0' ++ ['.', '0']
    else ds.take whole ++ '.' :: ds.drop whole

/-- Digits with a point after the first one and an exponent. -/
def scientific (ds : List Char) (exponent : Int) : List Char :=
  let mant := match ds with
    | d :: d' :: rest => d :: '.' :: d' :: rest
    | _ => ds
  let ex := Nat.toDigits 10 exponent.natAbs
  mant ++ 'e' :: (if exponent < 0 then '-' else '+') ::
    (List.replicate (2 - ex.length) '0' ++ ex)

/-- Text of a positive decimal. -/
def decimalText (d : Decimal) : List Char :=
  let ds := Nat.toDigits 10 d.digits
  let exponent := d.exponent + (ds.length : Int) - 1
  if -4 ≤ exponent ∧ exponent < 16 then positional ds exponent else scientific ds exponent

/-- The text of a double. -/
def text : Binary64 → String
  | .nan => "nan"
  | .infinity s => if s then "-inf" else "inf"
  | .finite s m e =>
    let body := if m = 0 then ['0', '.', '0'] else decimalText (shortest m e)
    String.ofList (if s then '-' :: body else body)

/-- A rounded multiple of `10 ^ -places` written with that many places. -/
def fixedText (places : Nat) (n : Nat) : List Char :=
  let ds := Nat.toDigits 10 n
  let ds := List.replicate (places + 1 - ds.length) '0' ++ ds
  if places = 0 then ds
  else ds.take (ds.length - places) ++ '.' :: ds.drop (ds.length - places)

end Binary64

end TableAudit.Number
