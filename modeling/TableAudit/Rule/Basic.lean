import TableAudit.Duration
import TableAudit.Json.Read
import TableAudit.Number.Basic
import TableAudit.Pattern.Reading

/-!
# Rules

A rule says what the cells of a column must be: a text, a number, a date, a truth value, an e-mail
address or one of some choices, each with its own demands. Every rule says too what holds for
blank cells and which value new cells begin with.
-/

namespace TableAudit

namespace Rule

/-- What every rule says: whether a blank cell passes, whether it is reported as missing, and the
value of new cells. -/
structure Common where
  optional : Bool
  required : Bool
  default : Value
deriving Inhabited, Repr

/-- Demands on texts. -/
structure Text where
  common : Common
  minLength : Option Nat
  maxLength : Option Nat
  exactLength : Option Nat
  pattern : Option Pattern
  mayBeEmpty : Bool
  unique : Bool
  choices : Option (List String)
deriving Repr

/-- Demands on numbers. -/
structure Number where
  common : Common
  minimum : Option TableAudit.Number
  maximum : Option TableAudit.Number
  integer : Bool
  positive : Bool
  negative : Bool
  convert : Bool
deriving Repr

/-- A span of time after which a date has expired, as written and in milliseconds. -/
structure Expiry where
  source : String
  millis : Int
deriving Repr

/-- Demands on dates. -/
structure Date where
  common : Common
  convert : Bool
  expiry : Option Expiry
deriving Repr

/-- Demands on truth values. -/
structure Boolean where
  common : Common
  convert : Bool
deriving Repr

/-- Demands on choices. -/
structure Choice where
  common : Common
  values : List String
deriving Repr

end Rule

/-- What the cells of a column must be. -/
inductive Rule
  | text (r : Rule.Text)
  | number (r : Rule.Number)
  | date (r : Rule.Date)
  | boolean (r : Rule.Boolean)
  | email (common : Rule.Common)
  | choice (r : Rule.Choice)
deriving Repr

namespace Rule

/-- What the rule says as every rule does. -/
def common : Rule → Common
  | text r => r.common
  | number r => r.common
  | date r => r.common
  | boolean r => r.common
  | email c => c
  | choice r => r.common

/-- The value of new cells, nothing where none is declared. -/
def default (r : Rule) : Value :=
  r.common.default

/-- Whether an empty text is accepted as one. -/
def mayBeEmpty : Rule → Bool
  | text r => r.mayBeEmpty
  | _ => true

/-- What is wrong with the text of a rule. -/
inductive Mistake
  | empty
  | notJson (mistake : Json.Mistake)
  | noType
  | unknownType (name : String)
  | notNumber (key : String) (value : Value)
  | notFlag (key : String) (value : Value)
  | notCount (key : String)
  | patternNoText
  | badPattern (source : String) (mistake : Pattern.Mistake)
  | notList (key : String)
  | emptyList (key : String)
  | badExpiry (mistake : Duration.Mistake)
  | noValues
deriving Repr

/-- The wording of a mistake. -/
def Mistake.text : Mistake → String
  | empty => "empty rule"
  | notJson m => "invalid rule object: " ++ m.text
  | noType => "rule object must declare a string 'type'"
  | unknownType name => "unknown rule type '" ++ name ++ "'"
  | notNumber key v => "'" ++ key ++ "' must be a number, got " ++ v.literal
  | notFlag key v => "'" ++ key ++ "' must be true or false, got " ++ v.literal
  | notCount key => "'" ++ key ++ "' must be a non-negative integer"
  | patternNoText => "'pattern' must be a string"
  | badPattern source m =>
    "invalid pattern " ++ TableAudit.Text.quoted source ++ ": " ++ m.text source.toList
  | notList key => "'" ++ key ++ "' must be a list of values"
  | emptyList key => "'" ++ key ++ "' must not be empty"
  | badExpiry m => "invalid expire duration: " ++ m.text
  | noValues => "enum rule requires 'values'"

/-- Why the text of a rule has no rule. -/
inductive Refusal
  | mistake (m : Mistake)
  | fault (f : Fault)
deriving Repr

end Rule

end TableAudit
