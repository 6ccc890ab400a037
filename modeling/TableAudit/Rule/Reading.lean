import TableAudit.Rule.Properties

/-!
# Reading rules

The typed rule that properties describe. Every property is checked for its kind; where several
are wrong the first one read is reported. Unknown properties are ignored.
-/

namespace TableAudit.Rule

/-- A mistake as the outcome. -/
def wrong {α : Type} (m : Mistake) : Except Refusal α :=
  .error (.mistake m)

/-- A property that is a number or missing. -/
def number? (ps : Properties) (key : String) : Except Refusal (Option TableAudit.Number) :=
  match ps.get key with
  | .null => .ok none
  | .int n => .ok (some (.int n))
  | .float x => .ok (some (.float x))
  | v => wrong (.notNumber key v)

/-- A property that is a truth value, with the value that a missing one has. -/
def flag (ps : Properties) (key : String) (missing : Bool) : Except Refusal Bool :=
  match (ps.get? key).getD (.bool missing) with
  | .bool b => .ok b
  | v => wrong (.notFlag key v)

/-- A list of texts: a text cut at its commas, or the texts of the items of a list. -/
def texts (key : String) : Value → Except Refusal (List String)
  | .text s =>
    .ok ((TableAudit.Text.splitAll ',' s.toList).map fun cs =>
      String.ofList (TableAudit.Text.trimChars cs))
  | .list [] => wrong (.emptyList key)
  | .list items => .ok (items.map Value.plain)
  | _ => wrong (.notList key)

/-- A number as a count: an integer, possibly written with decimals, that is not negative. -/
def count (key : String) : TableAudit.Number → Except Refusal Nat
  | .int n => if n < 0 then wrong (.notCount key) else .ok n.toNat
  | .float x =>
    if x.compareInt? 0 = some .lt then wrong (.notCount key)
    else
      match x.truncate? with
      | none => .error (.fault (if x.isNaN then .undefinedNumber else .outOfRange))
      | some n => if x.isIntegral then .ok n.toNat else wrong (.notCount key)

/-- A property that is a count or missing. -/
def count? (key : String) : Option TableAudit.Number → Except Refusal (Option Nat)
  | none => .ok none
  | some n => (count key n).map some

/-- A property that is a pattern or missing. -/
def pattern? (ps : Properties) : Except Refusal (Option Pattern) :=
  match ps.get "pattern" with
  | .null => .ok none
  | .text s =>
    match Pattern.ofText? s with
    | .ok p => .ok (some p)
    | .error (.mistake m) => wrong (.badPattern s m)
    | .error (.fault f) => .error (.fault f)
  | _ => wrong .patternNoText

/-- What every rule says. -/
def readCommon (ps : Properties) : Except Refusal Common := do
  let optional ← flag ps "optional" false
  let required ← flag ps "required" false
  .ok ⟨optional, required, ps.get "default"⟩

/-- Demands on texts. -/
def readText (ps : Properties) : Except Refusal Text := do
  let pattern ← pattern? ps
  let min ← number? ps "min"
  let max ← number? ps "max"
  let length ← number? ps "length"
  let min ← count? "min" min
  let max ← count? "max" max
  let length ← count? "length" length
  let common ← readCommon ps
  let mayBeEmpty ← flag ps "empty" true
  let unique ← flag ps "exists" false
  let choices ← match ps.get? "enum" with
    | none => .ok none
    | some v => (texts "enum" v).map some
  .ok ⟨common, min, max, length, pattern, mayBeEmpty, unique, choices⟩

/-- Demands on numbers. -/
def readNumber (ps : Properties) : Except Refusal Number := do
  let common ← readCommon ps
  let min ← number? ps "min"
  let max ← number? ps "max"
  let integer ← flag ps "integer" false
  let positive ← flag ps "positive" false
  let negative ← flag ps "negative" false
  let convert ← flag ps "convert" false
  .ok ⟨common, min, max, integer, positive, negative, convert⟩

/-- The span after which dates expire, if one is declared. -/
def expiry? (ps : Properties) : Except Refusal (Option Expiry) :=
  match ps.get "expire" with
  | .null => .ok none
  | .bool false => .ok none
  | v =>
    match Duration.ofValue v with
    | .ok millis => .ok (some ⟨v.plain, millis⟩)
    | .error (.mistake m) => wrong (.badExpiry m)
    | .error (.fault f) => .error (.fault f)

/-- Demands on dates. -/
def readDate (ps : Properties) : Except Refusal Date := do
  let expiry ← expiry? ps
  let common ← readCommon ps
  let convert ← flag ps "convert" false
  .ok ⟨common, convert, expiry⟩

/-- Demands on truth values. -/
def readBoolean (ps : Properties) : Except Refusal Boolean := do
  let common ← readCommon ps
  let convert ← flag ps "convert" false
  .ok ⟨common, convert⟩

/-- Demands on choices. -/
def readChoice (ps : Properties) : Except Refusal Choice :=
  match ps.get? "values" with
  | none => wrong .noValues
  | some v => do
    let common ← readCommon ps
    let values ← texts "values" v
    .ok ⟨common, values⟩

/-- The rule that properties describe. -/
def ofProperties (ps : Properties) : Except Refusal Rule :=
  match TableAudit.Text.trim (ps.get "type").plain with
  | "string" => (readText ps).map .text
  | "number" => (readNumber ps).map .number
  | "date" => (readDate ps).map .date
  | "boolean" => (readBoolean ps).map .boolean
  | "email" => (readCommon ps).map .email
  | "enum" => (readChoice ps).map .choice
  | name => wrong (.unknownType name)

/-- The rule that a text spells. -/
def ofText (source : String) : Except Refusal Rule :=
  properties source >>= ofProperties

end TableAudit.Rule
