import TableAudit.Session.Basic

/-!
# Loading rows in turn

Calls for a session's rows are served in the order they arrive, one at a time. A call whose turn
has come takes the rows that are kept; if there are none it reads them, and they are kept unless
the session was invalidated meanwhile. A reading that fails or is given up leaves the session as
it was and the next call to take its turn.
-/

namespace TableAudit

/-- A call for rows, known by a number. -/
abbrev LoadId := Nat

/-- A reading that is under way, and the generation in which it began. -/
structure LoadHolder where
  id : LoadId
  generation : Nat
deriving DecidableEq, Repr

/-- A session with the calls for its rows. -/
structure Loads where
  session : Session
  holder : Option LoadHolder
  waiting : List LoadId
deriving Repr

/-- How a call's turn begins. -/
inductive LoadTurn
  /-- It takes the rows that are kept. -/
  | served (id : LoadId) (rows : List Row)
  /-- It begins to read them. -/
  | reads (id : LoadId)
deriving Repr

namespace Loads

/-- No calls yet. -/
def start (s : Session) : Loads := ⟨s, none, []⟩

/-- A call arrives. -/
def request (l : Loads) (id : LoadId) : Loads :=
  { l with waiting := l.waiting ++ [id] }

/-- The first waiting call takes its turn, unless a reading is under way. -/
def proceed? (l : Loads) : Option (LoadTurn × Loads) :=
  match l.holder, l.waiting with
  | none, id :: rest =>
    match l.session.rows with
    | some rows => some (.served id rows, { l with waiting := rest })
    | none =>
      some (.reads id, { l with holder := some ⟨id, l.session.generation⟩, waiting := rest })
  | _, _ => none

/-- The reading under way ends with rows. -/
def finish (l : Loads) (rows : List Row) : Loads :=
  match l.holder with
  | none => l
  | some h => { l with session := l.session.keepRows h.generation rows, holder := none }

/-- The reading under way fails. -/
def fail (l : Loads) : Loads :=
  { l with holder := none }

/-- A call is given up, whether it waits or reads. -/
def cancel (l : Loads) (id : LoadId) : Loads :=
  { l with
    holder := l.holder.filter (·.id ≠ id)
    waiting := l.waiting.filter (· ≠ id) }

/-- The session is invalidated. -/
def invalidate (l : Loads) : Loads :=
  { l with session := l.session.invalidate }

/-- What a reading is going to do: whether the session is invalidated while it runs, and what it
ends with. -/
structure Plan where
  invalidates : Bool
  result : Except String (List Row)

/-- Carry out a reading that has begun. -/
def carryOut (l : Loads) (p : Plan) : Loads :=
  let l := if p.invalidates then l.invalidate else l
  match p.result with
  | .ok rows => l.finish rows
  | .error _ => l.fail

/-- Let the first waiting call take its turn, and carry out its reading if it has to read. -/
def serve (l : Loads) (p : Plan) : Except String (List Row) × Loads :=
  match l.proceed? with
  | some (.served _ rows, l) => (.ok rows, l)
  | some (.reads _, l) => (p.result, l.carryOut p)
  | none => (p.result, l)

/-- Serve calls that arrive together, each with the plan of the reading that it would begin. -/
def serveAll (s : Session) (plans : List Plan) : List (Except String (List Row)) × Session :=
  let arrived := (List.range plans.length).foldl request (start s)
  let (results, l) := plans.foldl (fun (results, l) p =>
    let (r, l) := serve l p
    (results ++ [r], l)) ([], arrived)
  (results, l.session)

end Loads

end TableAudit
