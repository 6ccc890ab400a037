import TableAudit.Number.Basic

/-!
# Times of chunks

Number, mean and 95th percentile of the times that the chunks of a column took. The mean is the
exact sum divided once; the percentile lies between two neighbours of the sorted times, nineteen
twentieths of the way from the least to the greatest.
-/

namespace TableAudit.ChunkTimes

open TableAudit.Number (Binary64)

/-- The unit in which sums of finite numbers are integers. -/
def unitExponent : Nat := 1074

/-- A finite number in units of `2 ^ -1074`. -/
def units? : Number → Option Int
  | .int n => some (n * Int.pow 2 unitExponent)
  | .float (.finite s m e) =>
    some (Binary64.signedMantissa s m * Int.pow 2 (e + unitExponent).toNat)
  | .float _ => none

/-- A number that is not finite. -/
def unbounded? : Number → Option Binary64
  | .int _ => none
  | .float (.finite ..) => none
  | .float x => some x

/-- Whether the number is an integer of its own kind. -/
def isInt : Number → Bool
  | .int _ => true
  | .float _ => false

/-- The mean. Numbers that are not finite decide it alone; integers with an integer mean keep
it. -/
def mean (times : List Number) : Number :=
  match times.filterMap unbounded? with
  | x :: xs => .float (xs.foldl Binary64.add x)
  | [] =>
    let sum : Int := (times.filterMap units?).foldl (· + ·) 0
    let count := times.length * Nat.pow 2 unitExponent
    if times.all isInt && sum % count == 0 then .int (sum / count)
    else .float (Binary64.ofRatio (sum < 0) sum.natAbs count)

/-- A number times a count. -/
def scale (a : Number) (n : Nat) : Number :=
  match a with
  | .int m => .int (m * n)
  | .float x => .float (x.mul (Binary64.ofInt n))

/-- The sum of two numbers. -/
def add : Number → Number → Number
  | .int a, .int b => .int (a + b)
  | .int a, .float y => .float ((Binary64.ofInt a).add y)
  | .float x, .int b => .float (x.add (Binary64.ofInt b))
  | .float x, .float y => .float (x.add y)

/-- The point nineteen twentieths of the way through sorted times. -/
def percentile (sorted : List Number) : Number :=
  let p := 19 * (sorted.length - 1)
  let low := (sorted[p / 20]?).getD (.int 0)
  let high := (sorted[p / 20 + 1]?).getD (.int 0)
  let sum := add (scale low (20 - p % 20)) (scale high (p % 20))
  match sum.divNat? 20 with
  | some x => .float x
  | none => sum

/-- Number, mean and 95th percentile. -/
def stats (times : List Number) : Nat × Number × Number :=
  match times with
  | [] => (0, .float (Binary64.zero false), .float (Binary64.zero false))
  | [t] => (1, mean [t], t)
  | _ => (times.length, mean times, percentile (times.mergeSort fun a b => !b.lt a))

end TableAudit.ChunkTimes
