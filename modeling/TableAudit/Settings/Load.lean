import TableAudit.Json.Read
import TableAudit.Settings.Basic
import TableAudit.Settings.SchemaDocument
import TableAudit.Yaml.Value

/-!
# Loading settings

A file of settings is optional unless it is asked for. What is written in it must satisfy the
schema of settings before it is read; then the environment is taken into account.
-/

namespace TableAudit

namespace Settings

/-- A text, or nothing. -/
def optionalText : Schema :=
  .all [.kinds [.text, .null]]

/-- A text with a character at least. -/
def filledText : Schema :=
  .all [.kinds [.text], .minSize .text 1]

/-- Any text. -/
def anyText : Schema :=
  .all [.kinds [.text]]

/-- A number within bounds. -/
def bounded (kind : SchemaKind) (bounds : List (Bound × Int)) : Schema :=
  .all (.kinds [kind] :: bounds.map fun b => .bound b.1 (.int b.2))

/-- A mapping with properties of these names only. -/
def closed (ps : List (String × Schema)) : Schema :=
  .all [.kinds [.object], .others (ps.map (·.1)) .nothing, .properties ps]

/-- The schema of settings. -/
def schema : Schema :=
  closed [
    ("engine", closed [
      ("chunk_size", bounded .integer [(.atLeast, 1)]),
      ("debounce_seconds", bounded .number [(.atLeast, 0)]),
      ("page_size", bounded .integer [(.atLeast, 1), (.atMost, 500)])]),
    ("retry", closed [
      ("attempts", bounded .integer [(.atLeast, 1)]),
      ("base_delay", bounded .number [(.atLeast, 0)]),
      ("max_delay", bounded .number [(.atLeast, 0)])]),
    ("remote", closed [
      ("base_url", filledText),
      ("app_token", optionalText),
      ("table_id", optionalText),
      ("view_id", optionalText),
      ("timeout_seconds", bounded .number [(.above, 0)])]),
    ("notification", closed [
      ("webhook_url", optionalText),
      ("title", anyText),
      ("locale", filledText),
      ("table_url", optionalText),
      ("link_text", anyText),
      ("closing_text", anyText)]),
    ("messages", .all [.kinds [.object], .others [] anyText])]

/-- What is wrong with settings. -/
inductive Mistake
  | fileMissing (path : String)
  | badYaml
  | rootNoMapping
  | schemaMissing (path : String)
  | badSchemaText (m : Json.Mistake)
  | violation (v : SchemaViolation)
deriving Repr

/-- The wording of a mistake. -/
def Mistake.text : Mistake → String
  | fileMissing path => "config file not found: " ++ path
  | badYaml => "invalid yaml"
  | rootNoMapping => "config root must be a mapping"
  | schemaMissing path => "config schema not found: " ++ path
  | badSchemaText m => "invalid schema file: " ++ m.text
  | violation v => "config validation failed at " ++ v.place ++ ": " ++ v.message

/-- Why settings could not be loaded. -/
inductive LoadError
  | mistake (m : Mistake)
  /-- The schema that was laid down is none. -/
  | badSchema
  | fault (f : Fault)
deriving Repr

/-- A schema as it is laid down in a file, which may be missing. -/
def schemaOf (path : String) (file : Option String) : Except LoadError Schema :=
  match file with
  | none => .error (.mistake (.schemaMissing path))
  | some s =>
    match Json.read s with
    | .error (.mistake m) => .error (.mistake (.badSchemaText m))
    | .error .digitLimit => .error (.fault .digitLimit)
    | .ok v =>
      match SchemaDocument.read v with
      | .ok schema => .ok schema
      | .error .illFormed => .error .badSchema
      | .error (.fault f) => .error (.fault f)

/-- Check a document against a schema. -/
def conform (schema : Schema) (v : Value) : Except LoadError Unit :=
  match schema.violation? v with
  | .error f => .error (.fault f)
  | .ok none => .ok ()
  | .ok (some violation) => .error (.mistake (.violation violation))

/-- The settings that a document makes, after it was checked. -/
def ofDocument (schema : Schema) (v : Value) : Except LoadError Settings := do
  conform schema v
  (ofValue v).mapError .fault

/-- The document that a text of settings is. An empty one stands for no settings. -/
def documentOf (s : String) : Except LoadError Value :=
  match Yaml.read s with
  | .error .malformed => .error (.mistake .badYaml)
  | .error (.fault f) => .error (.fault f)
  | .ok v =>
    if !v.isTruthy then .ok (.map [])
    else if v.isMap then .ok v
    else .error (.mistake .rootNoMapping)

/-- The settings that a text makes. -/
def ofText (s : String) : Except LoadError Settings := do
  let v ← documentOf s
  ofDocument schema v

/-- The place where the settings are looked for. -/
def usualPath : String := "config/fieldcheck.yml"

/-- The settings of a file, which may be missing, in an environment. -/
def load (path : String) (isRequired : Bool) (file : Option String) (env : Environment) :
    Except LoadError Settings :=
  match file with
  | none =>
    if isRequired then .error (.mistake (.fileMissing path)) else .ok (inEnvironment env usual)
  | some s => (ofText s).map (inEnvironment env)

end Settings

end TableAudit
