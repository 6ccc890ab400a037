import TableAudit.Cell.ColumnType

/-!
# Columns

A column has an identifier that never changes, a name that users see, a type, a description in
whatever shape the table gives it, and properties of which the list of options matters.
-/

namespace TableAudit

/-- What is known of a column. -/
structure Column where
  id : String
  name : String
  type : ColumnType
  description : Value
  properties : Value
deriving Inhabited, Repr

namespace Column

/-- The options of a select column. Properties that hold something but are no mapping have no
options to look for. -/
def options (c : Column) : Except Fault (List Value) :=
  if c.properties.isTruthy then
    match c.properties with
    | .map entries =>
      match Value.lookup entries "options" with
      | some (.list items) => .ok items
      | _ => .ok []
    | _ => .error .noAttribute
  else .ok []

end Column

end TableAudit
