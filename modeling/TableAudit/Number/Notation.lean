import TableAudit.Number.Shortest

/-!
# Doubles with a given precision

A finite double in fixed notation, with a number of decimal places; in scientific notation, with a
number of places after the first digit; and in general notation, with a number of significant
digits, where the size of the number decides between the two. Digits are rounded from the exact
value, a half going to the even one.
-/

namespace TableAudit.Number.Binary64

/-- The spelling of exponents: a sign and at least two digits. -/
def exponentText (mark : Char) (e : Int) : List Char :=
  let ds := Nat.toDigits 10 e.natAbs
  mark :: (if e < 0 then '-' else '+') :: (List.replicate (2 - ds.length) '0' ++ ds)

/-- The digits of `m * 2 ^ e` with `places` digits after the first, and the exponent of the
first. -/
def significant (m : Nat) (e : Int) (places : Nat) : Nat × Int :=
  if m = 0 then (0, 0)
  else
    let v := magnitude m e
    let k := decimalMagnitude v.1 v.2
    let s := scaled 10 v.1 v.2 ((places : Int) - k)
    let n := divEven s.1 s.2
    if n = Nat.pow 10 (places + 1) then (Nat.pow 10 places, k + 1) else (n, k)

/-- A number's digits, filled with zeros to a width. -/
def filled (width n : Nat) : List Char :=
  let ds := Nat.toDigits 10 n
  List.replicate (width - ds.length) '0' ++ ds

/-- Digits of a fraction after a point; no digits have no point unless it is kept. -/
def pointed (keepPoint : Bool) (whole fraction : List Char) : List Char :=
  if fraction.isEmpty && !keepPoint then whole else whole ++ '.' :: fraction

/-- Fixed notation of the magnitude of a finite number. -/
def fixed (keepPoint : Bool) (places m : Nat) (e : Int) : List Char :=
  let v := magnitude (m * Nat.pow 10 places) e
  let ds := filled (places + 1) (divEven v.1 v.2)
  pointed keepPoint (ds.take (ds.length - places)) (ds.drop (ds.length - places))

/-- Scientific notation of the magnitude of a finite number. -/
def exponential (keepPoint : Bool) (mark : Char) (places m : Nat) (e : Int) : List Char :=
  let (n, k) := significant m e places
  let ds := filled (places + 1) n
  pointed keepPoint (ds.take 1) (ds.drop 1) ++ exponentText mark k

/-- Digits without zeros at the end. -/
def withoutZeros (ds : List Char) : List Char :=
  (ds.reverse.dropWhile (· = '0')).reverse

/-- How general notation is spelled: the mark of the exponent, whether zeros at the end are kept,
and whether a number without fraction ends in `.0`. -/
structure General where
  mark : Char
  keepZeros : Bool
  decimal : Bool

/-- General notation of the magnitude of a finite number, with `digits` significant digits. -/
def general (g : General) (digits m : Nat) (e : Int) : List Char :=
  let digits := max digits 1
  let (n, k) := significant m e (digits - 1)
  let ds := filled digits n
  let limit : Int := if g.decimal then (digits : Int) - 1 else digits
  let trim (fraction : List Char) := if g.keepZeros then fraction else withoutZeros fraction
  if k < -4 ∨ limit ≤ k then
    pointed g.keepZeros (ds.take 1) (trim (ds.drop 1)) ++ exponentText g.mark k
  else
    let (whole, fraction) :=
      if k < 0 then (['0'], List.replicate (-k - 1).toNat '0' ++ ds)
      else (ds.take (k.toNat + 1), ds.drop (k.toNat + 1))
    let fraction := trim fraction
    if fraction.isEmpty && g.decimal then whole ++ ['.', '0']
    else pointed g.keepZeros whole fraction

end TableAudit.Number.Binary64
