import TableAudit.Cell.Basic
import TableAudit.Column.RuleText
import TableAudit.Rule.Reading

/-!
# Default cell values

A rule may declare a default for cells of new records. Text, number and single select columns can
hold one: a text as it is, a number as a double, an option by its name. A text that spells no
number counts as zero in a number column.
-/

namespace TableAudit.Defaults

/-- Why a column cannot hold a default. -/
inductive Unsupported
  /-- No option has the default's text as its name. -/
  | noOption (text columnName : String)
  /-- Cells of the type take no default. -/
  | columnType (type : ColumnType) (columnName : String)
deriving DecidableEq, Repr

/-- The wording of an unsupported default. -/
def Unsupported.message : Unsupported → String
  | noOption text columnName =>
    "no option named " ++ Text.quoted text ++ " in column '" ++ columnName ++ "'"
  | columnType type columnName =>
    "defaults not supported for " ++ type.name ++ " column '" ++ columnName ++ "'"

/-- Why a default has no cell value. -/
inductive Refusal
  | unsupported (u : Unsupported)
  | fault (f : Fault)
deriving DecidableEq, Repr

/-- The text of a default, nothing having the empty one. -/
def defaultText : Value → Except Fault String
  | .null => .ok ""
  | v => v.written

/-- The cell value of a default with a text in a number column. -/
def numberCell (default : Value) (text : String) : Except Fault Value :=
  match default.number? with
  | some n =>
    match n.toDouble? with
    | some x => .ok (.float x)
    | none => .error .outOfRange
  | none =>
    match Number.readDouble? text.toList with
    | some x => .ok (.float x)
    | none => .ok (.int 0)

/-- The cell value of the first option with a name. An option that is no mapping cannot be looked
into. -/
def optionCell (columnName text : String) : List Value → Except Refusal Value
  | [] => .error (.unsupported (.noOption text columnName))
  | option :: rest =>
    if option.isMap then
      if (option.get "name").eqv (.text text) then
        .ok (.object [("id", option.get "id"), ("text", option.get "name")])
      else optionCell columnName text rest
    else .error (.fault .noAttribute)

/-- The cell value of a default with a text in a column. -/
def cellValueOf (c : Column) (default : Value) (text : String) : Except Refusal Value :=
  match c.type with
  | .text => .ok (.text text)
  | .number => (numberCell default text).mapError .fault
  | .singleSelect =>
    match c.options with
    | .ok options => optionCell c.name text options
    | .error f => .error (.fault f)
  | t => .error (.unsupported (.columnType t c.name))

/-- The cell value of a default in a column. The text is written first, whatever the column. -/
def cellValue (c : Column) (default : Value) : Except Refusal Value :=
  match defaultText default with
  | .ok text => cellValueOf c default text
  | .error f => .error (.fault f)

/-- A column with the cell value of its default. -/
structure Target where
  column : Column
  value : Value
deriving Repr

/-- The default that a column's rule declares, if it has a rule that can be read and the rule
declares one. -/
def declared? (c : Column) : Except Fault (Option Value) :=
  match RuleConfig.ofDescription c.description with
  | .error f => .error f
  | .ok (.found rule _) =>
    match Rule.ofText rule with
    | .error (.fault f) => .error f
    | .error (.mistake _) => .ok none
    | .ok r =>
      match r.default with
      | .null => .ok none
      | v => .ok (some v)
  | .ok _ => .ok none

/-- The target of a column, if its rule declares a default that it can hold. -/
def target? (c : Column) : Except Fault (Option Target) :=
  match declared? c with
  | .error f => .error f
  | .ok none => .ok none
  | .ok (some v) =>
    match cellValue c v with
    | .ok value => .ok (some ⟨c, value⟩)
    | .error (.unsupported _) => .ok none
    | .error (.fault f) => .error f

/-- The targets of columns. -/
def targets : List Column → Except Fault (List Target)
  | [] => .ok []
  | c :: cs => do
    let t ← target? c
    let ts ← targets cs
    .ok (t.toList ++ ts)

end TableAudit.Defaults
