import TableAudit.Http.Talk
import TableAudit.Retry

/-!
# Delivering notices

A notice is posted to an address. A status that is no success, or a failure on the way, is tried
again under a policy; when the attempts are used up, the notice could not be delivered.
-/

namespace TableAudit.Notice

open TableAudit.Http

/-- Why posting failed once. The long text is the one that is logged. -/
structure PostFailure where
  text : String
  longText : String
deriving DecidableEq, Repr

/-- Why a notice was not delivered. -/
inductive DeliveryError
  /-- All attempts failed. -/
  | undelivered (last : PostFailure)
  /-- The policy allows no attempt. -/
  | noAttempt
  /-- The notice is no JSON document. -/
  | fault (f : Fault)
deriving DecidableEq, Repr

/-- The wording for a notice that was not delivered. -/
def undeliveredText (last : String) : String :=
  "webhook delivery failed: " ++ last

/-- What a reply says of an attempt: nothing if it succeeded. -/
def failureOf (url : String) : Reply → Option PostFailure
  | .error message => some ⟨message, message⟩
  | .ok r => if r.isSuccess then none else some ⟨r.failureText, r.longFailureText url⟩

/-- The line that is logged when an attempt failed and another one follows. -/
def againLine (p : RetryPolicy) (r : Retry) (reason : String) (wait : Number) : Log.Line :=
  ⟨Log.warning, "webhook attempt " ++ toString r.attempt ++ "/" ++ toString p.attempts ++
    " failed: " ++ reason ++ "; retrying in " ++ wait.text ++ "s"⟩

/-- The line that is logged when the last attempt failed. -/
def gaveUpLine (p : RetryPolicy) (reason : String) : Log.Line :=
  ⟨Log.error, "webhook failed after " ++ toString p.attempts ++ " attempts: " ++ reason⟩

/-- Attempt to post until it succeeds or no attempt is left. The number counts the attempts after
the current one. -/
def attempts (p : RetryPolicy) (request : Request) : Nat → Retry → Talk (Option PostFailure)
  | left, r => .send request fun reply =>
    match failureOf request.url reply with
    | none => .done none
    | some e =>
      match r.afterFailure p, left with
      | .again wait next, left + 1 =>
        .note (againLine p r e.longText wait) (.pause wait (attempts p request left next))
      | _, _ => .note (gaveUpLine p e.longText) (.done (some e))

/-- The address without its parameters. -/
def bareUrl (url : String) : String :=
  String.ofList (Address.cut '?' url.toList).1

/-- The line that is logged when a notice was delivered. -/
def sentLine (url : String) : Log.Line :=
  ⟨Log.info, "notification sent to " ++ bareUrl url⟩

/-- Deliver a notice. -/
def deliver (p : RetryPolicy) (url : String) (notice : Value) : Talk (Except DeliveryError Unit) :=
  match Retry.begin? p, Json.document notice with
  | none, _ => .done (.error .noAttempt)
  | some _, .error f => .done (.error (.fault f))
  | some r, .ok body => do
    match ← attempts p ⟨"POST", url, none, none, some body⟩ (p.attempts.toNat - 1) r with
    | none => .note (sentLine url) (.done (.ok ()))
    | some e => .done (.error (.undelivered e))

end TableAudit.Notice
