import TableAudit.Number.Basic

/-!
# Retries

A failed operation is tried again after a wait that doubles from one failure to the next up to a
greatest wait. After the last attempt the error is reported. A policy must allow an attempt.
-/

namespace TableAudit

/-- How often an operation is attempted and how long is waited in between. -/
structure RetryPolicy where
  attempts : Int
  baseDelay : Number
  maxDelay : Number
deriving DecidableEq, Repr, Inhabited

/-- Three attempts, waits from one second to five. -/
def RetryPolicy.usual : RetryPolicy :=
  ⟨3, .float (Number.Binary64.ofInt 1), .float (Number.Binary64.ofInt 5)⟩

/-- The state of an operation under a policy: the number of the current attempt, and the delay
after its failure before it is capped. -/
structure Retry where
  attempt : Int
  delay : Number
deriving DecidableEq, Repr, Inhabited

/-- What follows a failed attempt. -/
inductive RetryDecision
  /-- Try again after a wait. -/
  | again (wait : Number) (next : Retry)
  /-- No attempt is left. -/
  | giveUp
deriving Repr

namespace Retry

/-- The wording for a policy that allows no attempt. -/
def noAttemptText : String := "attempts must be >= 1"

/-- The first attempt, if the policy allows one. -/
def begin? (p : RetryPolicy) : Option Retry :=
  if p.attempts < 1 then none else some ⟨1, p.baseDelay⟩

/-- What follows the failure of the current attempt. -/
def afterFailure (p : RetryPolicy) (r : Retry) : RetryDecision :=
  if r.attempt = p.attempts then .giveUp
  else .again (r.delay.min p.maxDelay) ⟨r.attempt + 1, r.delay.double⟩

/-- The wording for an operation whose attempts all failed. -/
def exhaustedText (attempts : Int) (last : String) : String :=
  "gave up after " ++ toString attempts ++ " attempts: " ++ last

/-- The outcome of one attempt. -/
inductive Outcome (α ε : Type)
  | success (a : α)
  | failure (e : ε)
deriving Repr

/-- How an operation under a policy ends. -/
inductive Ending (α ε : Type)
  | success (a : α)
  /-- A failure that is not tried again. -/
  | refused (e : ε)
  /-- All attempts failed, the last one with this error. -/
  | exhausted (attempts : Int) (last : ε)
  /-- The policy allows no attempt. -/
  | noAttempt
  /-- The outcomes were used up before the operation ended. -/
  | unfinished
deriving Repr

/-- A run: how it ended, the waits, and the outcomes that were not used. -/
structure Run (α ε : Type) where
  ending : Ending α ε
  waits : List Number
  left : List (Outcome α ε)
deriving Repr

/-- Go on from an attempt with the outcomes that the attempts will have. Only failures that
`retriable` admits are tried again. -/
def runFrom {α ε : Type} (p : RetryPolicy) (retriable : ε → Bool) :
    Retry → List (Outcome α ε) → Run α ε
  | _, [] => ⟨.unfinished, [], []⟩
  | _, .success a :: rest => ⟨.success a, [], rest⟩
  | r, .failure e :: rest =>
    if !retriable e then ⟨.refused e, [], rest⟩
    else
      match r.afterFailure p with
      | .giveUp => ⟨.exhausted p.attempts e, [], rest⟩
      | .again wait next =>
        let run := runFrom p retriable next rest
        { run with waits := wait :: run.waits }

/-- Run an operation whose attempts have the given outcomes. -/
def run {α ε : Type} (p : RetryPolicy) (retriable : ε → Bool) (outcomes : List (Outcome α ε)) :
    Run α ε :=
  match begin? p with
  | none => ⟨.noAttempt, [], outcomes⟩
  | some r => runFrom p retriable r outcomes

end Retry

end TableAudit
