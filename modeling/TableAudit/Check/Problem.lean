import TableAudit.Rule.Keyword

/-!
# Problems

What can be wrong with a cell: each problem has a code, which reports carry, and a message
template, which names the column as `field`, the demand as `expected` and the cell as `actual`.
-/

namespace TableAudit

/-- What is wrong with a cell. -/
inductive Problem
  | missing
  | noText
  | emptyText
  | tooShort
  | tooLong
  | otherLength
  | noMatch
  | noChoiceOfText
  | noNumber
  | tooSmall
  | tooLarge
  | noInteger
  | notPositive
  | notNegative
  | noDate
  | noBoolean
  | noEmail
  | noChoice
  | repeated
  | expired
deriving DecidableEq, Repr

namespace Problem

/-- The code of a problem. -/
def code : Problem → String
  | missing => "required"
  | noText => "string"
  | emptyText => "stringEmpty"
  | tooShort => "stringMin"
  | tooLong => "stringMax"
  | otherLength => "stringLength"
  | noMatch => "stringPattern"
  | noChoiceOfText => "stringEnum"
  | noNumber => "number"
  | tooSmall => "numberMin"
  | tooLarge => "numberMax"
  | noInteger => "numberInteger"
  | notPositive => "numberPositive"
  | notNegative => "numberNegative"
  | noDate => "date"
  | noBoolean => "boolean"
  | noEmail => "email"
  | noChoice => "enumValue"
  | repeated => "stringExists"
  | expired => "dateExpire"

/-- The message template of a problem. -/
def template : Problem → String
  | missing => "The '\x7bfield\x7d' field is required."
  | noText => "The '\x7bfield\x7d' field must be a string."
  | emptyText => "The '\x7bfield\x7d' field must not be empty."
  | tooShort =>
    "The '\x7bfield\x7d' field length must be greater than or equal to \x7bexpected\x7d characters long."
  | tooLong =>
    "The '\x7bfield\x7d' field length must be less than or equal to \x7bexpected\x7d characters long."
  | otherLength => "The '\x7bfield\x7d' field length must be \x7bexpected\x7d characters long."
  | noMatch => "The '\x7bfield\x7d' field fails to match the required pattern."
  | noChoiceOfText => "The '\x7bfield\x7d' field does not match any of the allowed values."
  | noNumber => "The '\x7bfield\x7d' field must be a number."
  | tooSmall => "The '\x7bfield\x7d' field must be greater than or equal to \x7bexpected\x7d."
  | tooLarge => "The '\x7bfield\x7d' field must be less than or equal to \x7bexpected\x7d."
  | noInteger => "The '\x7bfield\x7d' field must be an integer."
  | notPositive => "The '\x7bfield\x7d' field must be a positive number."
  | notNegative => "The '\x7bfield\x7d' field must be a negative number."
  | noDate => "The '\x7bfield\x7d' field must be a Date."
  | noBoolean => "The '\x7bfield\x7d' field must be a boolean."
  | noEmail => "The '\x7bfield\x7d' field must be a valid e-mail."
  | noChoice =>
    "The '\x7bfield\x7d' field value '\x7bactual\x7d' does not match any of the allowed values."
  | repeated => "Duplicate value in column"
  | expired => "Expired, needs follow-up"

/-- The problem of a cell that is not of its rule's kind. -/
def ofKind : Rule → Problem
  | .text _ => noText
  | .number _ => noNumber
  | .date _ => noDate
  | .boolean _ => noBoolean
  | .email _ => noEmail
  | .choice _ => noChoice

/-- The problem of a cell that fails a keyword of its rule. -/
def ofKeyword (r : Rule) : Rule.Keyword → Problem
  | .kind _ => ofKind r
  | .minLength _ => tooShort
  | .maxLength _ => tooLong
  | .exactLength _ => otherLength
  | .pattern _ =>
    match r with
    | .email _ => noEmail
    | _ => noMatch
  | .oneOf _ =>
    match r with
    | .text _ => noChoiceOfText
    | _ => noChoice
  | .unique => repeated
  | .minimum _ => tooSmall
  | .maximum _ => tooLarge
  | .integer => noInteger
  | .positive => notPositive
  | .negative => notNegative
  | .expiry _ => expired

end Problem

end TableAudit
