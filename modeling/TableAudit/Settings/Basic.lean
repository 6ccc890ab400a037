import TableAudit.Notice.Basic
import TableAudit.Remote.Table
import TableAudit.Retry
import TableAudit.Table.Reading
import TableAudit.Pass.Column

/-!
# Settings

The settings come in sections: how a pass is done, how posting is tried again, where the table is,
how a notice is worded, and how problems are worded. A value is kept as it was written, so an
integer may have been written as a double. What is not written has its usual value. Some settings
are taken from the environment, which wins over what is written.
-/

namespace TableAudit

/-- How a pass is done. -/
structure EngineSettings where
  chunkSize : Value
  debounceSeconds : Value
  pageSize : Value
deriving Repr

/-- How posting is tried again. -/
structure RetrySettings where
  attempts : Value
  baseDelay : Value
  maxDelay : Value
deriving Repr

/-- Where the table is. -/
structure RemoteSettings where
  baseUrl : Value
  appToken : Value
  tableId : Value
  viewId : Value
  timeoutSeconds : Value
  accessToken : Value
deriving Repr

/-- How a notice is worded and where it is posted. -/
structure NoticeSettings where
  webhookUrl : Value
  title : Value
  locale : Value
  tableUrl : Value
  linkText : Value
  closingText : Value
deriving Repr

/-- All settings. -/
structure Settings where
  engine : EngineSettings
  retry : RetrySettings
  remote : RemoteSettings
  notice : NoticeSettings
  /-- The wordings of problems by their codes. -/
  messages : List (Value × Value)
deriving Repr

/-- A section of settings by the names under which its values are written. -/
abbrev Fields := List (String × Value)

namespace EngineSettings

/-- Half a second. -/
def usualDebounce : Number.Binary64 := .ofRatio false 1 2

/-- The usual values. -/
def usual : EngineSettings :=
  ⟨PassOptions.usualChunkSize.toValue, .float usualDebounce, RowQuery.usualPageSize.toValue⟩

/-- The values by their names. -/
def fields (s : EngineSettings) : Fields :=
  [("chunk_size", s.chunkSize), ("debounce_seconds", s.debounceSeconds),
    ("page_size", s.pageSize)]

/-- Set the value of a name. -/
def set (s : EngineSettings) (name : String) (v : Value) : Option EngineSettings :=
  match name with
  | "chunk_size" => some { s with chunkSize := v }
  | "debounce_seconds" => some { s with debounceSeconds := v }
  | "page_size" => some { s with pageSize := v }
  | _ => none

end EngineSettings

namespace RetrySettings

/-- The usual values. -/
def usual : RetrySettings :=
  let p := RetryPolicy.usual
  ⟨.int p.attempts, p.baseDelay.toValue, p.maxDelay.toValue⟩

/-- The values by their names. -/
def fields (s : RetrySettings) : Fields :=
  [("attempts", s.attempts), ("base_delay", s.baseDelay), ("max_delay", s.maxDelay)]

/-- Set the value of a name. -/
def set (s : RetrySettings) (name : String) (v : Value) : Option RetrySettings :=
  match name with
  | "attempts" => some { s with attempts := v }
  | "base_delay" => some { s with baseDelay := v }
  | "max_delay" => some { s with maxDelay := v }
  | _ => none

end RetrySettings

namespace RemoteSettings

/-- The usual values. -/
def usual : RemoteSettings :=
  ⟨.text Remote.usualBaseUrl, .null, .null, .null, .float (.ofInt 30), .null⟩

/-- The values by their names. -/
def fields (s : RemoteSettings) : Fields :=
  [("base_url", s.baseUrl), ("app_token", s.appToken), ("table_id", s.tableId),
    ("view_id", s.viewId), ("timeout_seconds", s.timeoutSeconds),
    ("access_token", s.accessToken)]

/-- Set the value of a name. -/
def set (s : RemoteSettings) (name : String) (v : Value) : Option RemoteSettings :=
  match name with
  | "base_url" => some { s with baseUrl := v }
  | "app_token" => some { s with appToken := v }
  | "table_id" => some { s with tableId := v }
  | "view_id" => some { s with viewId := v }
  | "timeout_seconds" => some { s with timeoutSeconds := v }
  | "access_token" => some { s with accessToken := v }
  | _ => none

end RemoteSettings

namespace NoticeSettings

/-- The usual values. -/
def usual : NoticeSettings :=
  let w := Notice.Wording.usual
  ⟨.null, .text w.title, .text w.locale, .ofOption .text w.tableUrl, .text w.linkText,
    .text w.closingText⟩

/-- The values by their names. -/
def fields (s : NoticeSettings) : Fields :=
  [("webhook_url", s.webhookUrl), ("title", s.title), ("locale", s.locale),
    ("table_url", s.tableUrl), ("link_text", s.linkText), ("closing_text", s.closingText)]

/-- Set the value of a name. -/
def set (s : NoticeSettings) (name : String) (v : Value) : Option NoticeSettings :=
  match name with
  | "webhook_url" => some { s with webhookUrl := v }
  | "title" => some { s with title := v }
  | "locale" => some { s with locale := v }
  | "table_url" => some { s with tableUrl := v }
  | "link_text" => some { s with linkText := v }
  | "closing_text" => some { s with closingText := v }
  | _ => none

end NoticeSettings

namespace Settings

/-- The usual settings. -/
def usual : Settings :=
  ⟨.usual, .usual, .usual, .usual, []⟩

/-- The settings as a document. -/
def toValue (s : Settings) : Value :=
  .object [("engine", .object s.engine.fields), ("retry", .object s.retry.fields),
    ("remote", .object s.remote.fields), ("notification", .object s.notice.fields),
    ("messages", .map s.messages)]

/-! ## Reading settings -/

/-- Set the values of entries. Keys that are no names of the section are a fault. -/
def setAll {σ : Type} (set : σ → String → Value → Option σ) (s : σ) :
    List (Value × Value) → Except Fault σ
  | [] => .ok s
  | (k, v) :: es =>
    match k.text?.bind fun name => set s name v with
    | some s => setAll set s es
    | none => .error .wrongKind

/-- A section, which has its usual values where nothing, or something empty, is written. -/
def section? {σ : Type} (set : σ → String → Value → Option σ) (usual : σ) (v : Value) :
    Except Fault σ :=
  if v.isTruthy then
    match v with
    | .map es => setAll set usual es
    | _ => .error .wrongKind
  else .ok usual

/-- The two values of a pair. -/
def pairOf : List Value → Except Fault (Value × Value)
  | [k, v] => .ok (k, v)
  | _ => .error .malformed

/-- A value as a pair of two values. -/
def pair : Value → Except Fault (Value × Value)
  | .list vs => pairOf vs
  | .tuple vs => pairOf vs
  | .text s => pairOf (s.toList.map fun c => .text (String.singleton c))
  | .bytes bs => pairOf (bs.map fun b => .int b.toNat)
  | .map es => pairOf (es.map (·.1))
  | _ => .error .wrongKind

/-- Values as pairs whose first values can be keys. -/
def pairs : List Value → Except Fault (List (Value × Value))
  | [] => .ok []
  | v :: vs => do
    let (k, w) ← pair v
    if k.isList || k.isMap then .error .wrongKind
    let rest ← pairs vs
    .ok ((k, w) :: rest)

/-- A mapping, or pairs that make one. -/
def entriesOf (v : Value) : Except Fault (List (Value × Value)) :=
  if v.isTruthy then
    match v with
    | .map es => .ok es
    | .list vs => (pairs vs).map Value.ofPairs
    | .tuple vs => (pairs vs).map Value.ofPairs
    | .text _ => .error .malformed
    | _ => .error .wrongKind
  else .ok []

/-- The settings that a document makes. -/
def ofValue (v : Value) : Except Fault Settings :=
  match v with
  | .map _ => do
    let engine ← section? EngineSettings.set .usual (v.get "engine")
    let retry ← section? RetrySettings.set .usual (v.get "retry")
    let remote ← section? RemoteSettings.set .usual (v.get "remote")
    let notice ← section? NoticeSettings.set .usual (v.get "notification")
    let messages ← entriesOf (v.get "messages")
    .ok ⟨engine, retry, remote, notice, messages⟩
  | _ => .error .noAttribute

/-! ## The environment -/

/-- Variables with their values. -/
abbrev Environment := List (String × String)

/-- The variable for the token that authorizes requests. -/
def accessTokenVariable : String := "FIELDCHECK_ACCESS_TOKEN"
/-- The variable for the application whose table is meant. -/
def appTokenVariable : String := "FIELDCHECK_APP_TOKEN"
/-- The variable for the table. -/
def tableIdVariable : String := "FIELDCHECK_TABLE_ID"
/-- The variable for the view. -/
def viewIdVariable : String := "FIELDCHECK_VIEW_ID"
/-- The variable for the address where notices are posted. -/
def webhookUrlVariable : String := "FIELDCHECK_WEBHOOK_URL"

/-- The variables that settings are taken from. -/
def variableNames : List String :=
  [accessTokenVariable, appTokenVariable, tableIdVariable, viewIdVariable, webhookUrlVariable]

/-- The value of a variable that is set and not empty, or else what is written. -/
def overridden (env : Environment) (name : String) (written : Value) : Value :=
  match env.lookup name with
  | none => written
  | some s => if s.isEmpty then written else .text s

/-- The settings in an environment. -/
def inEnvironment (env : Environment) (s : Settings) : Settings :=
  { s with
    remote := { s.remote with
      accessToken := overridden env accessTokenVariable s.remote.accessToken
      appToken := overridden env appTokenVariable s.remote.appToken
      tableId := overridden env tableIdVariable s.remote.tableId
      viewId := overridden env viewIdVariable s.remote.viewId }
    notice := { s.notice with
      webhookUrl := overridden env webhookUrlVariable s.notice.webhookUrl } }

end Settings

end TableAudit
