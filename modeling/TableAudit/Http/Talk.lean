import TableAudit.Http.Message
import TableAudit.Log.Logger
import TableAudit.Number.Basic

/-!
# Talks

A talk with a server asks one request at a time and goes on with the reply. In between it may log
lines, print texts, wait, and look at the clock. It can be held with a list of replies laid down
beforehand.
-/

namespace TableAudit.Http

/-- A talk that ends with a result. -/
inductive Talk (α : Type) : Type
  | done (a : α)
  | send (r : Request) (next : Reply → Talk α)
  | note (l : Log.Line) (next : Talk α)
  | print (text : String) (next : Talk α)
  | pause (wait : Number) (next : Talk α)
  | look (next : Calendar.Moment → Talk α)

namespace Talk

/-- Go on with another talk. -/
def bind {α β : Type} (t : Talk α) (f : α → Talk β) : Talk β :=
  match t with
  | done a => f a
  | send r next => send r fun reply => (next reply).bind f
  | note l next => note l (next.bind f)
  | print s next => print s (next.bind f)
  | pause wait next => pause wait (next.bind f)
  | look next => look fun now => (next now).bind f

instance : Monad Talk where
  pure := done
  bind := Talk.bind

/-- Something that a talk shows. -/
inductive Event
  | request (r : Request)
  | line (l : Log.Line)
  | text (s : String)
  | wait (n : Number)
deriving Repr

/-- A talk that was held: its result, what it showed, and the replies that are left. -/
structure Held (α : Type) where
  result : α
  events : List Event
  left : List Reply

/-- Put an event in front. -/
def Held.add {α : Type} (e : Event) (h : Held α) : Held α :=
  { h with events := e :: h.events }

/-- The requests of a talk that was held. -/
def Held.requests {α : Type} (h : Held α) : List Request :=
  h.events.filterMap fun
    | .request r => some r
    | _ => none

/-- The waits of a talk that was held. -/
def Held.waits {α : Type} (h : Held α) : List Number :=
  h.events.filterMap fun
    | .wait n => some n
    | _ => none

/-- The lines of a talk that was held. -/
def Held.lines {α : Type} (h : Held α) : List Log.Line :=
  h.events.filterMap fun
    | .line l => some l
    | _ => none

/-- Hold a talk with replies that are laid down, while the clock stands still. Past the last reply
every request fails. -/
def hold {α : Type} (now : Calendar.Moment) : Talk α → List Reply → Held α
  | done a, replies => ⟨a, [], replies⟩
  | note l next, replies => (hold now next replies).add (.line l)
  | print s next, replies => (hold now next replies).add (.text s)
  | pause wait next, replies => (hold now next replies).add (.wait wait)
  | look next, replies => hold now (next now) replies
  | send r next, [] => (hold now (next (.error exhaustedText)) []).add (.request r)
  | send r next, reply :: rest => (hold now (next reply) rest).add (.request r)

end Talk

end TableAudit.Http
