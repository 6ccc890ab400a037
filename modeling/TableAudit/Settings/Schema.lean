import TableAudit.Fault
import TableAudit.Value.Basic
import TableAudit.Value.Text

/-!
# Schemas

A schema makes demands on a value and, property by property, on the values in a mapping. What a
value violates is listed with the path from the root; the violation that is reported is the one
nearest to the root and, among those equally near, the one whose path is last in order.
-/

namespace TableAudit

/-- Kinds of values that a schema can demand. -/
inductive SchemaKind
  | array
  | boolean
  | integer
  | null
  | number
  | object
  | text
deriving DecidableEq, Repr

namespace SchemaKind

/-- The name of a kind. -/
def name : SchemaKind → String
  | array => "array"
  | boolean => "boolean"
  | integer => "integer"
  | null => "null"
  | number => "number"
  | object => "object"
  | text => "string"

/-- All kinds. -/
def all : List SchemaKind :=
  [array, boolean, integer, null, number, object, text]

/-- The kind of a name. -/
def ofName? (s : String) : Option SchemaKind :=
  all.find? (·.name = s)

/-- Whether a value is of a kind. A double without a fraction is an integer too. -/
def holds : SchemaKind → Value → Bool
  | array, .list _ => true
  | boolean, .bool _ => true
  | integer, .int _ => true
  | integer, .float x => x.isFinite && x.isIntegral
  | null, .null => true
  | number, .int _ => true
  | number, .float _ => true
  | object, .map _ => true
  | text, .text _ => true
  | _, _ => false

end SchemaKind

/-- A bound on numbers. -/
inductive Bound
  | atLeast
  | above
  | atMost
  | below
deriving DecidableEq, Repr

/-- What has a size: texts their characters, mappings their entries. -/
inductive Sized
  | text
  | object
deriving DecidableEq, Repr

mutual

/-- What a value must be like. -/
inductive Schema
  | anything
  | nothing
  | all (demands : List Demand)

/-- A single demand. -/
inductive Demand
  | kinds (ks : List SchemaKind)
  | bound (b : Bound) (limit : Number)
  | minSize (what : Sized) (n : Nat)
  | maxSize (what : Sized) (n : Nat)
  | oneOf (values : List Value)
  | exactly (value : Value)
  | required (names : List String)
  | properties (schemas : List (String × Schema))
  /-- The demand on properties that have no schema of their own. -/
  | others (known : List String) (schema : Schema)

end

/-- What is wrong with a value, and where. -/
structure SchemaViolation where
  path : List Value
  message : String
deriving Repr

namespace SchemaViolation

/-- A violation seen from one level up. -/
def under (key : Value) (v : SchemaViolation) : SchemaViolation :=
  { v with path := key :: v.path }

/-- Whether one key is before another, if they are in an order at all. -/
def keyLess? : Value → Value → Option Bool
  | .text a, .text b => some (decide (a < b))
  | .date a, .date b => some (a.dayNumber < b.dayNumber)
  | .moment a, .moment b => b.after? a
  | a, b =>
    match a.number?, b.number? with
    | some m, some n => some (m.lt n)
    | _, _ => none

/-- Whether one path is after another: the first keys that differ decide. -/
def pathAfter? : List Value → List Value → Option Bool
  | a :: as, b :: bs => if a.eqv b then pathAfter? as bs else keyLess? b a
  | as, [] => some (!as.isEmpty)
  | [], _ :: _ => some false

/-- Whether a violation is reported rather than an earlier one. -/
def outranks (a b : SchemaViolation) : Except Fault Bool :=
  if a.path.length ≠ b.path.length then .ok (a.path.length < b.path.length)
  else
    match pathAfter? a.path b.path with
    | some r => .ok r
    | none => .error .wrongKind

/-- The violation that is reported, given the best one so far. -/
def bestOf (best : SchemaViolation) : List SchemaViolation → Except Fault SchemaViolation
  | [] => .ok best
  | v :: vs => do
    let wins ← v.outranks best
    bestOf (if wins then v else best) vs

/-- The violation that is reported, if there is one. -/
def best? : List SchemaViolation → Except Fault (Option SchemaViolation)
  | [] => .ok none
  | v :: vs => (bestOf v vs).map some

/-- The place of a violation. -/
def place (v : SchemaViolation) : String :=
  let s := Text.joinWith "/" (v.path.map Value.plain)
  if s.isEmpty then "<root>" else s

end SchemaViolation

namespace Demand

/-- Whether a number keeps a bound. -/
def keeps (n limit : Number) : Bound → Bool
  | .atLeast => !n.lt limit
  | .above => !n.le limit
  | .atMost => !limit.lt n
  | .below => !limit.le n

/-- What breaking a bound is called. -/
def boundText : Bound → String
  | .atLeast => " is less than the minimum of "
  | .above => " is less than or equal to the minimum of "
  | .atMost => " is greater than the maximum of "
  | .below => " is greater than or equal to the maximum of "

/-- The number that a bound is put to. Truth values are no numbers here. -/
def bounded? : Value → Option Number
  | .int n => some (.int n)
  | .float x => some (.float x)
  | _ => none

/-- The size of a value, if it has one. -/
def size? : Sized → Value → Option Nat
  | .text, .text s => some s.length
  | .object, .map es => some es.length
  | _, _ => none

/-- What too small a size is called. -/
def smallText (what : Sized) (n : Nat) : String :=
  if n = 1 then " should be non-empty"
  else
    match what with
    | .text => " is too short"
    | .object => " does not have enough properties"

/-- What too large a size is called. -/
def largeText (what : Sized) (n : Nat) : String :=
  if n = 0 then " is expected to be empty"
  else
    match what with
    | .text => " is too long"
    | .object => " has too many properties"

/-- A violation here, if a condition does not hold. -/
def violatedUnless (condition : Bool) (message : String) : List SchemaViolation :=
  if condition then [] else [⟨[], message⟩]

/-- What is wrong with a value itself, for the demands that look no deeper. -/
def shallow (v : Value) : Demand → List SchemaViolation
  | kinds ks =>
    violatedUnless (ks.any (·.holds v)) (v.literal ++ " is not of type " ++
      Text.joinWith ", " (ks.map fun k => Text.quoted k.name))
  | bound b limit =>
    violatedUnless ((bounded? v).all fun n => keeps n limit b)
      (v.literal ++ boundText b ++ limit.toValue.literal)
  | minSize what n =>
    violatedUnless ((size? what v).all (n ≤ ·)) (v.literal ++ smallText what n)
  | maxSize what n =>
    violatedUnless ((size? what v).all (· ≤ n)) (v.literal ++ largeText what n)
  | oneOf values =>
    violatedUnless (values.any (·.eqv v)) (v.literal ++ " is not one of " ++ (Value.list values).literal)
  | exactly w => violatedUnless (w.eqv v) (w.literal ++ " was expected")
  | required names =>
    names.flatMap fun name =>
      violatedUnless (!v.isMap || v.has name) (Text.quoted name ++ " is a required property")
  | _ => []

/-- The entries of a mapping whose keys are not among known names. -/
def extras (known : List String) : Value → List (Value × Value)
  | .map es => es.filter fun e => !(e.1.text?.any known.contains)
  | _ => []

/-- Whether one text is before another or equal to it, character by character. -/
def textLe (a b : String) : Bool :=
  decide (¬ b < a)

/-- What properties that may not be there are called. -/
def extrasText (keys : List Value) : String :=
  let sorted := keys.mergeSort fun a b => textLe a.plain b.plain
  let verb := if keys.length = 1 then "was" else "were"
  "Additional properties are not allowed (" ++ Text.joinWith ", " (sorted.map Value.literal) ++
    " " ++ verb ++ " unexpected)"

/-- A violation for keys that may not be there, if there are any. -/
def noExtras (keys : List Value) : List SchemaViolation :=
  if keys.isEmpty then [] else [⟨[], extrasText keys⟩]

end Demand

mutual

/-- What is wrong with a value under a schema. -/
def Schema.violations (v : Value) : Schema → List SchemaViolation
  | .anything => []
  | .nothing => [⟨[], "False schema does not allow " ++ v.literal⟩]
  | .all demands => allViolations v demands

/-- What is wrong with a value under several demands, in their order. -/
def allViolations (v : Value) : List Demand → List SchemaViolation
  | [] => []
  | d :: ds => d.violations v ++ allViolations v ds

/-- What is wrong with a value under a demand. -/
def Demand.violations (v : Value) : Demand → List SchemaViolation
  | .properties schemas => propertyViolations v schemas
  | .others known .nothing => Demand.noExtras ((Demand.extras known v).map (·.1))
  | .others known schema =>
    (Demand.extras known v).flatMap fun e => (schema.violations e.2).map (·.under e.1)
  | d => d.shallow v

/-- What is wrong with the properties that have a schema of their own. -/
def propertyViolations (v : Value) : List (String × Schema) → List SchemaViolation
  | [] => []
  | (name, schema) :: rest =>
    let here := match v.get? name with
      | none => []
      | some w => (schema.violations w).map (·.under (.text name))
    here ++ propertyViolations v rest

end

/-- What is wrong with a value, as it is reported. -/
def Schema.violation? (s : Schema) (v : Value) : Except Fault (Option SchemaViolation) :=
  SchemaViolation.best? (s.violations v)

end TableAudit
