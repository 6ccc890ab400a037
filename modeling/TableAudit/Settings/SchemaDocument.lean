import TableAudit.Settings.Schema

/-!
# Schema documents

A schema is written as a mapping from keywords, or as a truth value that allows everything or
nothing. Keywords that are not known demand nothing; a known one with a value that it cannot have
spoils the schema.
-/

namespace TableAudit

/-- Why a document is no schema. -/
inductive SchemaRefusal
  /-- A keyword has a value that it cannot have, or the document is a list or a text. -/
  | illFormed
  | fault (f : Fault)
deriving DecidableEq, Repr

namespace SchemaDocument

/-- A value that must be there. -/
def need {α : Type} : Option α → Except SchemaRefusal α
  | some a => .ok a
  | none => .error .illFormed

/-- Whether all items of a list differ. -/
def areDistinct : List String → Bool
  | [] => true
  | s :: ss => !ss.contains s && areDistinct ss

/-- Distinct texts. -/
def texts? : Value → Option (List String)
  | .list items => do
    let ss ← items.mapM Value.text?
    if areDistinct ss then some ss else none
  | _ => none

/-- The kinds that are named: one, or several. -/
def kinds? : Value → Option (List SchemaKind)
  | .text s => (SchemaKind.ofName? s).map ([·])
  | v => do
    let names ← texts? v
    if names.isEmpty then none else names.mapM SchemaKind.ofName?

/-- A size, which is an integer and not negative. -/
def size? (v : Value) : Option Nat :=
  match v with
  | .int n => if n < 0 then none else some n.toNat
  | .float x => if SchemaKind.integer.holds v && !(x.truncate?).any (· < 0) then
      (x.truncate?).map Int.toNat else none
  | _ => none

/-- The bounds by their keywords. -/
def bounds : List (String × Bound) :=
  [("minimum", .atLeast), ("exclusiveMinimum", .above), ("maximum", .atMost),
    ("exclusiveMaximum", .below)]

/-- The least sizes by their keywords. -/
def leastSizes : List (String × Sized) :=
  [("minLength", .text), ("minProperties", .object)]

/-- The greatest sizes by their keywords. -/
def greatestSizes : List (String × Sized) :=
  [("maxLength", .text), ("maxProperties", .object)]

/-- The demand of a keyword that holds no schema, if the keyword is known. -/
def plainDemand (key : String) (v : Value) : Except SchemaRefusal (List Demand) :=
  match bounds.lookup key, leastSizes.lookup key, greatestSizes.lookup key with
  | some b, _, _ => (need (Demand.bounded? v)).map fun n => [.bound b n]
  | none, some what, _ => (need (size? v)).map fun n => [.minSize what n]
  | none, none, some what => (need (size? v)).map fun n => [.maxSize what n]
  | none, none, none =>
    match key, v with
    | "type", v => (need (kinds? v)).map fun ks => [.kinds ks]
    | "required", v => (need (texts? v)).map fun names => [.required names]
    | "enum", .list values => .ok [.oneOf values]
    | "enum", _ => .error .illFormed
    | "const", v => .ok [.exactly v]
    | _, _ => .ok []

/-- The properties that have a schema of their own. -/
def knownNames (es : List (Value × Value)) : List String :=
  match Value.lookup es "properties" with
  | some (.map ps) => ps.filterMap (·.1.text?)
  | _ => []

/-- A value that is no schema. -/
def refused : Value → SchemaRefusal
  | .text _ => .illFormed
  | .list _ => .illFormed
  | _ => .fault .wrongKind

mutual

/-- The schema that stands within another one. -/
def schema : Value → Except SchemaRefusal Schema
  | .bool b => .ok (if b then .anything else .nothing)
  | .map es => (demands (knownNames es) es).map .all
  | _ => .error .illFormed

/-- The demands of keywords with their values. -/
def demands (known : List String) : List (Value × Value) → Except SchemaRefusal (List Demand)
  | [] => .ok []
  | (k, v) :: es => do
    let here ← demand known (k.text?.getD "") v
    let rest ← demands known es
    .ok (here ++ rest)

/-- The demand of a keyword. -/
def demand (known : List String) (key : String) (v : Value) :
    Except SchemaRefusal (List Demand) :=
  if key = "additionalProperties" then (schema v).map fun s => [.others known s]
  else if key = "properties" then (properties v).map fun ps => [.properties ps]
  else plainDemand key v

/-- Schemas by the names of properties. -/
def properties : Value → Except SchemaRefusal (List (String × Schema))
  | .map es => propertySchemas es
  | _ => .error .illFormed

/-- Schemas by the keys of entries. -/
def propertySchemas : List (Value × Value) → Except SchemaRefusal (List (String × Schema))
  | [] => .ok []
  | (k, v) :: es => do
    let s ← schema v
    let rest ← propertySchemas es
    .ok ((k.text?.getD "", s) :: rest)

end

/-- The schema that a document is. -/
def read (v : Value) : Except SchemaRefusal Schema :=
  match v with
  | .bool _ => schema v
  | .map _ => schema v
  | v => .error (refused v)

end SchemaDocument

end TableAudit
