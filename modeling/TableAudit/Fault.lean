/-!
# Faults

Causes for which an operation has no result although its input is no domain error: numbers
beyond the range of a conversion, values of the wrong kind, texts over a limit.
-/

namespace TableAudit

/-- Why an operation on values has no result. -/
inductive Fault
  /-- A number is too large for the kind of number or date it is converted to. -/
  | outOfRange
  /-- An undefined number has no integer value. -/
  | undefinedNumber
  /-- An integer's text has more digits than are read or written. -/
  | digitLimit
  /-- A text is not of the form that is read. -/
  | malformed
  /-- Values of kinds that do not go together. -/
  | wrongKind
  /-- A value has no such attribute. -/
  | noAttribute
  /-- A mapping has no such key. -/
  | noKey
  /-- A sequence has no such place. -/
  | noPlace
deriving DecidableEq, Repr, Inhabited

end TableAudit
