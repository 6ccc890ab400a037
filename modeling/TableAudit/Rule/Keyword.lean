import TableAudit.Rule.Basic
import TableAudit.Value.Basic

/-!
# Keywords

A rule is checked as a list of keywords, one for each demand, in a fixed order: what kind of value
it must be, then the demands in it. The list has the form of a schema document.
-/

namespace TableAudit

namespace Email

/-- The pattern of e-mail addresses. -/
def source : String := "^[^\\s@]+@[^\\s@]+\\.[^\\s@]+$"

/-- One or more characters that are neither blank nor the at sign. -/
def word : Pattern.Node :=
  .repeated .greedy 1 none (.set true [.category .blank false, .code 64])

/-- The pattern of e-mail addresses as it is matched. -/
def pattern : Pattern :=
  ⟨source, .seq (.anchor .lineStart) (.seq word (.seq (.literal 64) (.seq word
    (.seq (.literal 46) (.seq word (.anchor .lineEnd)))))), [none], Pattern.Flags.none⟩

end Email

namespace Rule

/-- Kinds of values. -/
inductive Kind
  | text
  | number
  | date
  | boolean
deriving DecidableEq, Repr

/-- The name of a kind. -/
def Kind.name : Kind → String
  | text => "string"
  | number => "number"
  | date => "date"
  | boolean => "boolean"

/-- One demand on a value. -/
inductive Keyword
  | kind (k : Kind)
  | minLength (n : Nat)
  | maxLength (n : Nat)
  | exactLength (n : Nat)
  | pattern (p : Pattern)
  | oneOf (values : List String)
  | unique
  | minimum (n : TableAudit.Number)
  | maximum (n : TableAudit.Number)
  | integer
  | positive
  | negative
  | expiry (millis : Int)
deriving Repr

namespace Keyword

/-- The name of a keyword in a schema document. -/
def name : Keyword → String
  | kind _ => "type"
  | minLength _ => "minLength"
  | maxLength _ => "maxLength"
  | exactLength _ => "exactLength"
  | pattern _ => "pattern"
  | oneOf _ => "enum"
  | unique => "exists"
  | minimum _ => "minimum"
  | maximum _ => "maximum"
  | integer => "integer"
  | positive => "exclusiveMinimum"
  | negative => "exclusiveMaximum"
  | expiry _ => "expire"

/-- The value of a keyword in a schema document, which reports show as what was expected. -/
def value : Keyword → Value
  | kind k => .text k.name
  | minLength n => .int n
  | maxLength n => .int n
  | exactLength n => .int n
  | pattern p => .text p.source
  | oneOf values => .list (values.map .text)
  | unique => .bool true
  | minimum n => n.toValue
  | maximum n => n.toValue
  | integer => .bool true
  | positive => .int 0
  | negative => .int 0
  | expiry millis => .int millis

end Keyword

/-- A keyword if a demand is made. -/
def whenSome {α : Type} (f : α → Keyword) : Option α → List Keyword
  | none => []
  | some a => [f a]

/-- A keyword if a flag is set. -/
def whenSet (k : Keyword) (flag : Bool) : List Keyword :=
  if flag then [k] else []

/-- The keywords of a rule, in the order in which they are checked. -/
def keywords : Rule → List Keyword
  | text r =>
    .kind .text :: whenSome .minLength r.minLength ++ whenSome .maxLength r.maxLength ++
      whenSome .exactLength r.exactLength ++ whenSome .pattern r.pattern ++
      whenSome .oneOf r.choices ++ whenSet .unique r.unique
  | number r =>
    .kind .number :: whenSome .minimum r.minimum ++ whenSome .maximum r.maximum ++
      whenSet .integer r.integer ++ whenSet .positive r.positive ++ whenSet .negative r.negative
  | date r => .kind .date :: whenSome (fun e => .expiry e.millis) r.expiry
  | boolean _ => [.kind .boolean]
  | email _ => [.kind .text, .pattern Email.pattern]
  | choice r => [.oneOf r.values]

/-- The schema document of a rule. -/
def document (r : Rule) : Value :=
  .object (r.keywords.map fun k => (k.name, k.value))

end Rule

end TableAudit
