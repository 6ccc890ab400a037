import TableAudit.Check.Coercion
import TableAudit.Check.Problem
import TableAudit.Message.Template
import TableAudit.Pattern.Match
import TableAudit.Rule.Reading

/-!
# Checks

A check is a rule made ready for the cells of one column: it knows the texts that the column's
cells hold, the column's name, the wording of messages, and the present moment. A blank cell is
settled first; any other is read as what the rule speaks of and put to every keyword in turn. The
outcome is the list of what is wrong, empty if the cell passes.
-/

namespace TableAudit

open TableAudit.Calendar (Moment)

/-- Wordings that replace the usual ones, by code. -/
abbrev Messages := List (String × String)

/-- One thing that is wrong with a cell. -/
structure CheckError where
  code : String
  message : String
  field : String
  expected : Value
  actual : Value
deriving Inhabited, Repr

/-- A rule made ready for a column. -/
structure Check where
  rule : Rule
  field : String
  /-- The trimmed texts of the column's cells that are not blank. -/
  keys : List String
  messages : Messages
  now : Moment
deriving Repr

namespace Check

/-- The trimmed texts of cells, blank ones and missing ones left out. -/
def keysOf (column : List Value) : List String :=
  (column.filterMap fun
    | .null => none
    | v => some (Text.trim v.plain)).filter (· ≠ "")

/-- Make the check of a rule's text for a column. The column's cells matter only to rules that
demand unique texts. -/
def compile (source : String) (column : List Value) (field : String) (messages : Messages)
    (now : Moment) : Except Rule.Refusal Check := do
  let rule ← Rule.ofText source
  let keys := match rule with
    | .text r => if r.unique then keysOf column else []
    | _ => []
  .ok ⟨rule, field, keys, messages, now⟩

/-- The value of new cells. -/
def default (c : Check) : Value :=
  c.rule.default

/-- The template for a problem. -/
def template (c : Check) (p : Problem) : String :=
  (c.messages.lookup p.code).getD p.template

/-- Report a problem. -/
def report (c : Check) (p : Problem) (expected actual : Value) : Except Fault CheckError := do
  let shown := match expected with
    | .null => .text ""
    | v => v
  let names := [("field", .text c.field), ("expected", shown), ("actual", actual)]
  let message ← Message.format names (c.template p)
  .ok ⟨p.code, message, c.field, expected, actual⟩

/-- The longest span of time in milliseconds that dates can be moved by. -/
def longestSpan : Int := 999999999 * 86400000 + 86399999

/-- Whether a span of time can be added to dates. -/
def isSpan (millis : Int) : Bool :=
  -86399999913600000 ≤ millis && millis ≤ longestSpan

/-- Whether a moment has expired after a span of time. -/
def hasExpired (now : Moment) (millis : Int) (m : Moment) : Except Fault Bool :=
  if !isSpan millis then .error .outOfRange
  else
    match m.later? (millis * 1000) with
    | none => .error .outOfRange
    | some deadline =>
      match now.after? deadline with
      | none => .error .wrongKind
      | some late => .ok late

/-- Whether a value is of a kind. -/
def isOfKind (v : Value) : Rule.Kind → Bool
  | .text => v.isText
  | .number => v.number?.isSome
  | .boolean => match v with
    | .bool _ => true
    | _ => false
  | .date => match v with
    | .moment _ => true
    | .stamp _ => true
    | .noStamp => true
    | _ => false

/-- Whether a value's text, if it is one, meets a demand. -/
def meetsText (v : Value) (demand : String → Bool) : Bool :=
  match v with
  | .text s => demand s
  | _ => true

/-- Whether a value's number, if it is one, meets a demand. -/
def meetsNumber (v : Value) (demand : Number → Bool) : Bool :=
  match v.number? with
  | some n => demand n
  | none => true

/-- Whether a value meets a keyword. Most keywords concern values of one kind only. -/
def meets (c : Check) (v : Value) : Rule.Keyword → Except Fault Bool
  | .kind k => .ok (isOfKind v k)
  | .minLength n => .ok (meetsText v fun s => n ≤ s.length)
  | .maxLength n => .ok (meetsText v fun s => s.length ≤ n)
  | .exactLength n => .ok (meetsText v fun s => s.length == n)
  | .pattern p => .ok (meetsText v p.occurs)
  | .oneOf values => .ok (match v with
    | .text s => values.contains s
    | _ => false)
  | .unique => .ok (meetsText v fun s => c.keys.count (Text.trim s) ≤ 1)
  | .minimum n => .ok (meetsNumber v fun x => !x.lt n)
  | .maximum n => .ok (meetsNumber v fun x => !n.lt x)
  | .integer =>
    match v.number? with
    | some n =>
      match n.toDouble? with
      | some x => .ok x.isIntegral
      | none => .error .outOfRange
    | none => .ok true
  | .positive => .ok (meetsNumber v fun x => !x.le (.int 0))
  | .negative => .ok (meetsNumber v fun x => !(Number.int 0).le x)
  | .expiry millis =>
    match v with
    | .moment m => (hasExpired c.now millis m).map (!·)
    | .stamp m => (hasExpired c.now millis m).map (!·)
    | .noStamp => if isSpan millis then .ok true else .error .outOfRange
    | _ => .ok true

/-- What is wrong with a value, keyword by keyword. `actual` is the cell as it was. -/
def problems (c : Check) (actual v : Value) : List Rule.Keyword → Except Fault (List CheckError)
  | [] => .ok []
  | k :: ks => do
    if ← c.meets v k then problems c actual v ks
    else
      let e ← c.report (Problem.ofKeyword c.rule k) k.value actual
      .ok (e :: (← problems c actual v ks))

/-- What a blank cell is, if it is settled without looking further: fine, or one problem. -/
def blankProblem? (r : Rule) : Option (Option Problem) :=
  if r.common.optional then some none
  else if r.common.required then some (some .missing)
  else if r.mayBeEmpty then none
  else some (some .emptyText)

/-- What is wrong with a cell that is not settled by being blank. -/
def runFull (c : Check) (v : Value) : Except Fault (List CheckError) := do
  problems c v (← c.rule.coerce v) c.rule.keywords

/-- What is wrong with a cell; nothing if it passes. A missing cell counts as an empty text. -/
def run (c : Check) (cell : Value) : Except Fault (List CheckError) :=
  let v := match cell with
    | .null => Value.text ""
    | v => v
  match v with
  | .text s =>
    if Text.isBlankText s then
      match blankProblem? c.rule with
      | some none => .ok []
      | some (some p) => (c.report p .null v).map ([·])
      | none => c.runFull v
    else c.runFull v
  | v => c.runFull v

end Check

end TableAudit
