import TableAudit.Http.Talk
import TableAudit.Source.Basic

/-!
# Exchanges with a remote interface

An exchange sends one request and opens the envelope of its reply: a JSON object whose code is
zero, with the payload beside it. Everything else is reported as a failure that names the method
and the address, except for a payload of a shape that cannot be worked with.
-/

namespace TableAudit.Remote

open TableAudit.Http

/-- A talk that may fail. What is known of the table is kept also if it does. -/
abbrev Exchange (σ α : Type) := ExceptT SourceError (StateT σ Talk) α

namespace Exchange

variable {σ : Type}

/-- Put a request. -/
def request (r : Request) : Exchange σ Reply :=
  ExceptT.lift (StateT.lift (.send r .done))

/-- Log a line. -/
def log (l : Log.Line) : Exchange σ Unit :=
  ExceptT.lift (StateT.lift (.note l (.done ())))

/-- End with a failure. -/
def fail {α : Type} (message : String) : Exchange σ α :=
  throw (.failure message)

end Exchange

/-- The text in front of a failure. -/
def failureText (r : Request) (reason : String) : String :=
  r.method ++ " " ++ r.url ++ ": " ++ reason

/-- The request as it is sent: its body must be a JSON document. A number that JSON has no form
for, or that is too long, counts as a bad reply. -/
def sendable (r : Request) : Except SourceError Request :=
  match r.body with
  | none => .ok r
  | some v =>
    match Json.document v with
    | .ok d => .ok { r with body := some d }
    | .error .malformed => .error (.failure (failureText r "invalid JSON response"))
    | .error .digitLimit => .error (.failure (failureText r "invalid JSON response"))
    | .error f => .error (.fault f)

/-- The JSON value of a reply. -/
def openReply (r : Request) : Reply → Except SourceError Value
  | .error message => .error (.failure (failureText r message))
  | .ok response =>
    if response.isSuccess then
      match Json.readBytes? response.body with
      | some v => .ok v
      | none => .error (.failure (failureText r "invalid JSON response"))
    else .error (.failure (failureText r ("HTTP " ++ toString response.status)))

/-- The payload in an envelope. A missing or empty payload is an empty mapping. -/
def openEnvelope (r : Request) (envelope : Value) : Except SourceError Value :=
  if envelope.isMap then
    if (envelope.get "code").eqv (.int 0) then
      let data := envelope.get "data"
      .ok (if data.isTruthy then data else .map [])
    else .error (.failure (failureText r
      ("code=" ++ (envelope.get "code").plain ++ " msg=" ++ (envelope.get "msg").plain)))
  else .error (.failure (failureText r "unexpected response shape"))

/-- Send a request and open its reply. -/
def exchange {σ : Type} (r : Request) : Exchange σ Value := do
  let r ← liftExcept (sendable r)
  let reply ← Exchange.request r
  liftExcept (openReply r reply >>= openEnvelope r)
where
  /-- A result that may be an error, as an exchange. -/
  liftExcept {α : Type} (e : Except SourceError α) : Exchange σ α :=
    match e with
    | .ok a => pure a
    | .error e => throw e

/-- An attribute of a payload, which must be a mapping. -/
def attribute? (v : Value) (key : String) : Except SourceError Value :=
  if v.isMap then .ok (v.get key) else .error (.fault .noAttribute)

/-- The value, or a default where a condition does not take it as true. -/
def orElse (v default : Value) : Value :=
  if v.isTruthy then v else default

/-- The items of a list. What else can be gone through is made of texts, which have no attributes;
anything that cannot is of the wrong kind. -/
def listItems (v : Value) : Except SourceError (List Value) :=
  match v with
  | .list items => .ok items
  | .map _ => .error (.fault .noAttribute)
  | .text _ => .error (.fault .noAttribute)
  | _ => .error (.fault .wrongKind)

/-- The items in a payload. -/
def itemsOf (data : Value) : Except SourceError (List Value) := do
  let items ← attribute? data "items"
  if items.isTruthy then listItems items else .ok []

end TableAudit.Remote
