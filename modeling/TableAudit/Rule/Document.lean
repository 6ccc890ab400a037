import TableAudit.Rule.Keyword

/-!
# Rules as documents

A rule spelled out: the name of its type and every demand that rules of the type can make.
-/

namespace TableAudit.Rule

/-- Texts as a list of values. -/
def textsValue (ss : List String) : Value :=
  .list (ss.map .text)

/-- A count as a value. -/
def countValue (n : Nat) : Value :=
  .int n

/-- The name of the type of a rule. -/
def typeName : Rule → String
  | text _ => "StringRule"
  | number _ => "NumberRule"
  | date _ => "DateRule"
  | boolean _ => "BooleanRule"
  | email _ => "EmailRule"
  | choice _ => "EnumRule"

/-- The demands that rules of the type can make, by their names. -/
def demands : Rule → List (String × Value)
  | text r => [("min", .ofOption countValue r.minLength), ("max", .ofOption countValue r.maxLength),
      ("length", .ofOption countValue r.exactLength),
      ("pattern", .ofOption (fun p => .text p.source) r.pattern), ("empty", .bool r.mayBeEmpty),
      ("exists", .bool r.unique), ("enum", .ofOption textsValue r.choices)]
  | number r => [("min", .ofOption (·.toValue) r.minimum), ("max", .ofOption (·.toValue) r.maximum),
      ("integer", .bool r.integer), ("positive", .bool r.positive), ("negative", .bool r.negative),
      ("convert", .bool r.convert)]
  | date r => [("convert", .bool r.convert),
      ("expire", .ofOption (fun e => .text e.source) r.expiry),
      ("expire_ms", .ofOption (fun e => .int e.millis) r.expiry)]
  | boolean r => [("convert", .bool r.convert)]
  | email _ => []
  | choice r => [("values", textsValue r.values)]

/-- The rule as a document. -/
def details (r : Rule) : Value :=
  .object ([("optional", .bool r.common.optional), ("required", .bool r.common.required),
    ("default", r.default)] ++ r.demands)

end TableAudit.Rule
